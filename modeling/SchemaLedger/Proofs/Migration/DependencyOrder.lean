import Mathlib.Data.List.Permutation
import SchemaLedger.Migration.Diff
import SchemaLedger.Migration.Fault
import SchemaLedger.Proofs.Migration.Sorter

set_option autoImplicit false

/-!
# Targets first

Entities can be ordered exactly if their references among each other do not form a cycle. The order
holds each entity once, after the targets of its references; where there is none, the error shows a
cycle.
-/
namespace SchemaLedger.Dependency

variable {entities ordered : List Entity} {declared : List String} {listing : Entity → List String}

/-! ## References among entities -/

/-- Whether an entity of the list holds a single reference to another entity of the list. -/
def RefersTo (entities : List Entity) (source target : String) : Prop :=
  (∃ e ∈ entities, e.name = source ∧ ∃ r ∈ e.references, r.target = target) ∧
    target ≠ source ∧ ∃ g ∈ entities, g.name = target

/-- Whether no entity refers to itself through others. -/
def Acyclic (entities : List Entity) : Prop :=
  ∀ n, ¬ Relation.TransGen (RefersTo entities) n n

/-- A way from an entity back to itself, each entity on it referred to by the next. -/
structure ReferenceCycle (entities : List Entity) (path : List String) : Prop where
  refers : path.IsChain fun x y => RefersTo entities y x
  closed : path.head? = path.getLast?
  proper : 3 ≤ path.length

theorem mem_targets (entities : List Entity) (e : Entity) (t : String) :
    t ∈ targets entities e ↔
      (∃ r ∈ e.references, r.target = t) ∧ t ≠ e.name ∧ ∃ g ∈ entities, g.name = t := by
  simp [targets, List.mem_eraseDups, List.mem_filter]

theorem refersTo_iff (entities : List Entity) (source target : String) :
    RefersTo entities source target ↔
      ∃ e ∈ entities, e.name = source ∧ target ∈ targets entities e := by
  simp only [RefersTo, mem_targets]
  constructor
  · rintro ⟨⟨e, he, rfl, hr⟩, hne, hg⟩
    exact ⟨e, he, rfl, hr, hne, hg⟩
  · rintro ⟨e, he, rfl, hr, hne, hg⟩
    exact ⟨⟨e, he, rfl, hr⟩, hne, hg⟩

/-! ## The sorter -/

/-- What the sorter is told: each entity and its targets. -/
def additions (listing : Entity → List String) (declared : List String) (entities : List Entity) :
    List (String × List String) :=
  entities.map fun e => (e.name, sortByRank declared (listing e))

/-- Whether a listing lists the targets of every entity, in some order. -/
def ListsTargets (entities : List Entity) (listing : Entity → List String) : Prop :=
  ∀ e ∈ entities, (listing e).Perm (targets entities e)

theorem sortByRank_perm (declared names : List String) : (sortByRank declared names).Perm names :=
  List.mergeSort_perm _ _

theorem waitsFor_eq (hl : ListsTargets entities listing) (declared : List String) :
    Sorter.WaitsFor (additions listing declared entities) = RefersTo entities := by
  funext v u
  rw [Sorter.WaitsFor, Sorter.mem_predecessorsIn, refersTo_iff, additions]
  simp only [List.mem_map, exists_exists_and_eq_and, eq_iff_iff]
  refine exists_congr fun e => and_congr_right fun he => and_congr_right fun _ => ?_
  exact ((sortByRank_perm declared _).trans (hl e he)).mem_iff

theorem mentions_iff (hl : ListsTargets entities listing) (declared : List String) (n : String) :
    Sorter.Mentions (additions listing declared entities) n ↔ n ∈ entities.map (·.name) := by
  simp only [Sorter.Mentions, additions, List.mem_map, exists_exists_and_eq_and]
  constructor
  · rintro ⟨e, he, rfl | hn⟩
    · exact ⟨e, he, rfl⟩
    · have htarget := ((sortByRank_perm declared _).trans (hl e he)).mem_iff.1 hn
      exact ((mem_targets entities e n).1 htarget).2.2
  · rintro ⟨e, he, rfl⟩
    exact ⟨e, he, Or.inl rfl⟩

theorem names_sorter (hd : (entities.map (·.name)).Nodup) (hl : ListsTargets entities listing)
    (declared : List String) :
    (sorter listing declared entities).names.Perm (entities.map (·.name)) := by
  refine (List.perm_ext_iff_of_nodup (Sorter.built_ofPredecessors _).distinct hd).2 fun n => ?_
  rw [← mentions_iff hl declared]
  exact Sorter.mem_names

/-! ## Entities by name -/

theorem exists_byName? (hd : (entities.map (·.name)).Nodup) {names : List String}
    (hn : ∀ n ∈ names, n ∈ entities.map (·.name)) :
    ∃ es, byName? entities names = some es ∧ es.map (·.name) = names ∧ es ⊆ entities := by
  have hkeys : (entities.map fun e => (e.name, e)).map (·.1) = entities.map (·.name) := by
    rw [List.map_map]
    rfl
  rw [byName?, Entries.ofPairs_of_nodup (hkeys ▸ hd)]
  induction names with
  | nil => exact ⟨[], rfl, rfl, List.nil_subset _⟩
  | cons n rest ih =>
    obtain ⟨hfirst, hrest⟩ := List.forall_mem_cons.1 hn
    obtain ⟨e, he, rfl⟩ := List.mem_map.1 hfirst
    obtain ⟨es, hes, hnames, hsub⟩ := ih hrest
    have hfound := Entries.get?_of_mem (hkeys ▸ hd) (List.mem_map_of_mem (f := fun e => (e.name, e)) he)
    refine ⟨e :: es, ?_, by rw [List.map_cons, hnames], List.cons_subset.2 ⟨he, hsub⟩⟩
    rw [List.mapM_cons, hfound, hes]
    rfl

theorem perm_of_names (hd : (entities.map (·.name)).Nodup) {es : List Entity}
    (hsub : es ⊆ entities) (hp : (es.map (·.name)).Perm (entities.map (·.name))) :
    es.Perm entities := by
  have hes : (es.map (·.name)).Nodup := hp.nodup_iff.2 hd
  refine (List.perm_ext_iff_of_nodup hes.of_map hd.of_map).2 fun e => ⟨fun h => hsub h, fun he => ?_⟩
  obtain ⟨g, hg, hname⟩ := List.mem_map.1 (hp.mem_iff.2 (List.mem_map_of_mem he))
  exact List.inj_on_of_nodup_map hd (hsub hg) he hname ▸ hg

/-! ## The order -/

/-- Whether every entity stands after the other entities that it refers to. -/
def TargetsFirst (ordered : List Entity) : Prop :=
  ∀ before e after, ordered = before ++ e :: after → ∀ r ∈ e.references, ∀ g ∈ ordered,
    r.target = g.name → g.name ≠ e.name → g ∈ before

theorem referenceCycle_of_circle (hl : ListsTargets entities listing) {path : List String}
    (h : (sorter listing declared entities).Circle path) : ReferenceCycle entities path := by
  obtain ⟨hchain, hclosed, hproper⟩ := h
  have hrefers : path.IsChain fun x y => RefersTo entities y x := by
    rw [← waitsFor_eq hl declared, ← Sorter.follows_eq]
    exact hchain
  refine ⟨hrefers, hclosed, ?_⟩
  -- Two names would be one name that refers to itself.
  match path with
  | [] => simp at hproper
  | [x] => simp at hproper
  | [x, y] =>
    obtain ⟨-, hne, -⟩ := (List.isChain_cons_cons.1 hrefers).1
    exact absurd (by simpa using hclosed) hne
  | x :: y :: z :: rest => simp

theorem targetsFirst_of_inOrder (hd : (entities.map (·.name)).Nodup)
    (hl : ListsTargets entities listing) (hsub : ordered ⊆ entities)
    (h : Sorter.InOrder (additions listing declared entities) [] (ordered.map (·.name))) :
    TargetsFirst ordered := by
  rintro before e after rfl r hr g hg htarget hne
  have he : e ∈ entities := hsub (by simp)
  have hrefers : RefersTo entities e.name g.name :=
    ⟨⟨e, he, rfl, r, hr, htarget⟩, hne, g, hsub hg, rfl⟩
  rw [← waitsFor_eq hl declared] at hrefers
  have hin := h (before.map (·.name)) e.name (after.map (·.name)) (by simp) hrefers
  obtain ⟨i, hi, hname⟩ := List.mem_map.1 (by simpa using hin)
  exact List.inj_on_of_nodup_map hd (hsub (by simp [hi])) (hsub hg) hname ▸ hi

/-- What comes of the order: a cycle if there is one, and otherwise the entities, targets first. -/
theorem orderFrom_cases (hd : (entities.map (·.name)).Nodup) (hl : ListsTargets entities listing)
    (declared : List String) :
    (∃ path, orderFrom listing entities declared = .error path ∧ ReferenceCycle entities path ∧
      ¬ Acyclic entities) ∨
    ∃ ordered, orderFrom listing entities declared = .ok ordered ∧ Acyclic entities ∧
      ordered.Perm entities ∧ TargetsFirst ordered := by
  have hacyclic : (∃ t, (sorter listing declared entities).prepare = .ok t) ↔ Acyclic entities := by
    rw [Acyclic, ← waitsFor_eq hl declared]
    exact Sorter.prepare_iff
  cases h : (sorter listing declared entities).prepare with
  | error path =>
    left
    refine ⟨path, by rw [orderFrom, h]; rfl,
      referenceCycle_of_circle hl (Sorter.circle_of_prepare h), fun ha => ?_⟩
    obtain ⟨t, ht⟩ := hacyclic.2 ha
    cases h.symm.trans ht
  | ok t =>
    right
    obtain ⟨names, hdrain, hperm, horder⟩ :=
      Sorter.drain?_of_prepare h (sortByRank_perm declared)
    have hall := hperm.trans (names_sorter hd hl declared)
    obtain ⟨es, hes, rfl, hsub⟩ := exists_byName? hd fun n hn => hall.mem_iff.1 hn
    refine ⟨es, ?_, hacyclic.1 ⟨t, h⟩, perm_of_names hd hsub hall,
      targetsFirst_of_inOrder hd hl hsub horder⟩
    simp [orderFrom, h, hdrain, hes, bind, Except.bind]

/-- Entities with distinct names can be ordered exactly if their references do not form a cycle. The
order is the same entities, targets first; without one, the error shows a cycle. It does not matter in
which order the targets of an entity are listed. -/
theorem orderFrom_iff (hd : (entities.map (·.name)).Nodup) (hl : ListsTargets entities listing)
    (declared : List String) :
    ((∃ ordered, orderFrom listing entities declared = .ok ordered) ↔ Acyclic entities) ∧
      (∀ ordered, orderFrom listing entities declared = .ok ordered →
        ordered.Perm entities ∧ TargetsFirst ordered) ∧
      ∀ fault, (orderFrom listing entities declared).mapError DiffFault.cyclic = .error fault →
        fault.kind = .cyclicDependency ∧ ∃ path, ReferenceCycle entities path ∧
          fault.context = [("entity_path", textList path)] := by
  rcases orderFrom_cases hd hl declared with ⟨path, h, hcycle, hcyclic⟩ | ⟨ordered, h, ha, hp, ho⟩
  · rw [h]
    refine ⟨⟨nofun, fun ha => absurd ha hcyclic⟩, nofun, fun fault hfault => ?_⟩
    cases hfault
    exact ⟨rfl, path, hcycle, rfl⟩
  · rw [h]
    refine ⟨⟨fun _ => ha, fun _ => ⟨ordered, rfl⟩⟩, fun es hes => ?_, nofun⟩
    cases hes
    exact ⟨hp, ho⟩

/-- A blog, its posts, which may continue each other, and comments on posts of a blog. -/
def blogEntities : List Entity :=
  [{ name := "Comment",
     relationships := [.single { name := "post", target := "Post" },
       .single { name := "blog", target := "Blog" }, .single { name := "by", target := "User" }] },
   { name := "Post",
     relationships := [.single { name := "blog", target := "Blog" },
       .single { name := "continues", target := "Post", nullable := true }] },
   { name := "Blog" }]

/-- The same entities, the blog with a reference to a comment. -/
def pinnedEntities : List Entity :=
  blogEntities.take 2 ++
    [{ name := "Blog", relationships := [.single { name := "pinned", target := "Comment" }] }]

theorem orderFrom_iff_blog :
    (blogEntities.map (·.name)).Nodup ∧ ListsTargets blogEntities (targets blogEntities) ∧
      (pinnedEntities.map (·.name)).Nodup ∧
      ListsTargets pinnedEntities (fun e => (targets pinnedEntities e).reverse) ∧
      Acyclic blogEntities ∧ ¬ Acyclic pinnedEntities := by
  have hblog : (blogEntities.map (·.name)).Nodup := by decide
  have hpinned : (pinnedEntities.map (·.name)).Nodup := by decide
  have hlists : ListsTargets blogEntities (targets blogEntities) := fun _ _ => .refl _
  have hreversed : ListsTargets pinnedEntities (fun e => (targets pinnedEntities e).reverse) :=
    fun _ _ => List.reverse_perm _
  have hmade : (orderFrom (targets blogEntities) blogEntities ["Comment", "Post"]).isOk = true := by
    cbv
  have hfailed : (orderFrom (fun e => (targets pinnedEntities e).reverse) pinnedEntities
      []).isOk = false := by
    cbv
  refine ⟨hblog, hlists, hpinned, hreversed,
    (orderFrom_iff hblog hlists ["Comment", "Post"]).1.1 (Outcome.exists_ok hmade), fun ha => ?_⟩
  obtain ⟨ordered, hordered⟩ := (orderFrom_iff hpinned hreversed []).1.2 ha
  rw [hordered] at hfailed
  cases hfailed

/-! ## Targets in the order of the references -/

theorem listsTargets_targets (entities : List Entity) : ListsTargets entities (targets entities) :=
  fun _ _ => .refl _

/-- There is an order exactly if the references do not form a cycle. -/
theorem exists_order_iff (hd : (entities.map (·.name)).Nodup) (declared : List String) :
    (∃ ordered, order entities declared = .ok ordered) ↔ Acyclic entities := by
  rcases orderFrom_cases hd (listsTargets_targets entities) declared with
    ⟨path, h, -, hcyclic⟩ | ⟨ordered, h, ha, -⟩
  · rw [order, h]
    exact ⟨nofun, fun ha => absurd ha hcyclic⟩
  · rw [order, h]
    exact ⟨fun _ => ha, fun _ => ⟨ordered, rfl⟩⟩

/-- Whether an entity does without another one, its own references to itself apart. -/
def Precedes (e g : Entity) : Prop := ∀ r ∈ e.references, r.target = g.name → e.name = g.name

theorem TargetsFirst.pairwise (h : TargetsFirst ordered) (hd : ordered.Nodup) :
    ordered.Pairwise Precedes := by
  have hrest : ∀ rest before, ordered = before ++ rest → rest.Pairwise Precedes := by
    intro rest
    induction rest with
    | nil => exact fun _ _ => .nil
    | cons e after ih =>
      intro before hsplit
      refine List.pairwise_cons.2 ⟨fun g hg r hr htarget => ?_, ih (before ++ [e]) (by simp [hsplit])⟩
      by_contra hne
      have hin := h before e after hsplit r hr g (by simp [hsplit, hg]) htarget (Ne.symm hne)
      rw [hsplit] at hd
      exact List.disjoint_of_nodup_append hd hin (List.mem_cons_of_mem e hg)
  exact hrest ordered [] rfl

theorem order_targets_first (hd : (entities.map (·.name)).Nodup)
    (h : order entities declared = .ok ordered) :
    ordered.Perm entities ∧ ordered.Pairwise Precedes := by
  rcases orderFrom_cases hd (listsTargets_targets entities) declared with
    ⟨path, herror, -⟩ | ⟨es, hok, -, hperm, hfirst⟩
  · cases h.symm.trans herror
  · obtain rfl := Except.ok.inj (h.symm.trans hok)
    exact ⟨hperm, hfirst.pairwise (hperm.nodup_iff.2 hd.of_map)⟩

end SchemaLedger.Dependency
