import SchemaLedger.Proofs.Paired
import SchemaLedger.Proofs.Query.Acceptance

set_option autoImplicit false

/-!
# FROM clauses

The joins of a query depend on nothing but the chains of references that its plan mentions. Each
chain is joined once, after the chain that it continues, and outer exactly if one of its references
can be null. A table of joins that is filled as the chains are mentioned comes out the same in any
order.
-/
namespace SchemaLedger.Query

open Sql (Occurrence)

variable {s : Schema} {root : Entity}

/-! ## Mentioned chains -/

/-- The chains that a plan mentions: of its columns and keys all parts but the last, of its extra
joins all parts, and of its predicate what the paths follow. -/
inductive Plan.Mentions (s : Schema) (root : Entity) (p : Plan) : List String → Prop where
  | projection (path : String) (mem : path ∈ p.projections) : Mentions s root p (Path.chain path)
  | extra (path : String) (mem : path ∈ p.joins) : Mentions s root p (Path.parts path)
  | predicate (e : Expr) (holds : p.predicate = some e) (path : String) (mem : path ∈ e.paths)
      (chain : List String) (follows : Path.Follows s root path chain) : Mentions s root p chain
  | ordering (k : OrderKey) (mem : k ∈ p.ordering) : Mentions s root p (Path.chain k.path)

theorem Plan.Accepted.mem_chains (hs : s.Sound) (hroot : root ∈ s.entities) {p : Plan}
    (h : p.Accepted s root) (chain : List String) :
    chain ∈ p.chains s root ↔ p.Mentions s root chain := by
  simp only [Plan.chains, List.mem_append, List.mem_map]
  constructor
  · rintro (((⟨path, hp, rfl⟩ | ⟨path, hp, rfl⟩) | ⟨path, hp, rfl⟩) | ⟨k, hk, rfl⟩)
    · exact .projection path hp
    · exact .extra path hp
    · cases he : p.predicate with
      | none => simp [he] at hp
      | some e =>
        rw [he] at hp
        obtain ⟨chain, hchain⟩ := (testable_of_accepted e (h.predicate e he) path hp).exists_follows
        rw [followed_of_follows hs hroot hchain]
        exact .predicate e he path hp chain hchain
    · exact .ordering k hk
  · rintro (⟨path, hp⟩ | ⟨path, hp⟩ | ⟨e, he, path, hp, _, hfollows⟩ | ⟨k, hk⟩)
    · exact .inl (.inl (.inl ⟨path, hp, rfl⟩))
    · exact .inl (.inl (.inr ⟨path, hp, rfl⟩))
    · exact .inl (.inr ⟨path, by rwa [he], followed_of_follows hs hroot hfollows⟩)
    · exact .inr ⟨k, hk, rfl⟩

theorem Plan.mentions_iff (hs : s.Valid) {p : Plan} {d : Dialect} {c : Compiled}
    (h : p.compile d s = .ok c) (hroot : s.entity? p.entity = some root) (chain : List String) :
    p.Mentions s root chain ↔ chain ∈ p.chains s root := by
  have hsound := (Schema.valid_iff_sound s).1 hs
  obtain ⟨root', hroot', hover⟩ := compileOver_of_compile h
  obtain rfl : root' = root := Option.some.inj (hroot'.symm.trans hroot)
  have hin : root' ∈ s.entities := List.mem_of_find?_eq_some hroot
  exact ((accepted_of_compileOver hsound hin hover).mem_chains hsound hin chain).symm

/-- The joins come in the order of their chains, whatever the order in which these are mentioned. -/
theorem joinedChains_congr {as bs : List (List String)}
    (h : ∀ chain, chain ≠ [] → (chain ∈ as ↔ chain ∈ bs)) : joinedChains as = joinedChains bs := by
  have hmem : ∀ chain, chain ∈ joinedChains as ↔ chain ∈ joinedChains bs := by
    intro chain
    rw [mem_joinedChains, mem_joinedChains]
    refine exists_congr fun whole => and_congr_left fun ⟨hne, hprefix⟩ => h whole ?_
    rintro rfl
    exact hne (List.prefix_nil.1 hprefix)
  refine List.Perm.eq_of_pairwise (fun _ _ _ _ => chainBefore_antisymm) (pairwise_joinedChains as)
    (pairwise_joinedChains bs) ?_
  exact (List.perm_ext_iff_of_nodup (nodup_joinedChains as) (nodup_joinedChains bs)).2 hmem

/-! ## Outer joins -/

/-- One of the references of a chain can be null. -/
def MayMiss (s : Schema) (e : Entity) (chain : List String) : Prop :=
  ∃ before owner r after, chain = before ++ Reference.name r :: after ∧ Leads s e before owner ∧
    .single r ∈ owner.relationships ∧ r.nullable = true

section Sound

variable (hs : s.Sound)

include hs

theorem canMiss_cons {e next : Entity} (he : e ∈ s.entities) {r : Reference}
    (hr : .single r ∈ e.relationships) (hn : next ∈ s.entities) (hname : next.name = r.target)
    (chain : List String) :
    canMiss s e (r.name :: chain) = (r.nullable || canMiss s next chain) := by
  have hfound : e.relationship? r.name = some (.single r) :=
    (relationship?_eq_some (hs.entities e he)).2 ⟨hr, rfl⟩
  have htarget := (Schema.entity?_eq_some hs.distinct _ _).2 ⟨hn, hname⟩
  rw [canMiss]
  simp only [hfound, htarget, Option.any_some]

theorem canMiss_append {e m : Entity} (he : e ∈ s.entities) {chain : List String}
    (h : Leads s e chain m) (rest : List String) :
    canMiss s e (chain ++ rest) = (canMiss s e chain || canMiss s m rest) := by
  induction h with
  | here e => rw [List.nil_append, canMiss, Bool.false_or]
  | onward reference declared target _ ih =>
    rw [List.cons_append, canMiss_cons hs he reference declared target,
      canMiss_cons hs he reference declared target, ih declared, Bool.or_assoc]

theorem canMiss_iff {e last : Entity} (he : e ∈ s.entities) {chain : List String}
    (h : Leads s e chain last) : canMiss s e chain = true ↔ MayMiss s e chain := by
  constructor
  · intro hmiss
    induction h with
    | here e => cases hmiss
    | onward reference declared target rest ih =>
      rw [canMiss_cons hs he reference declared target, Bool.or_eq_true] at hmiss
      rcases hmiss with hnull | hmiss
      · exact ⟨[], _, _, _, rfl, .here _, reference, hnull⟩
      · obtain ⟨before, owner, r, after, rfl, hlead, hr, hnull⟩ := ih declared hmiss
        exact ⟨_ :: before, owner, r, after, rfl, .onward reference declared target hlead, hr,
          hnull⟩
  · rintro ⟨before, owner, r, after, rfl, hlead, hr, hnull⟩
    obtain ⟨next, -, hn, hname⟩ := exists_target hs (hlead.mem he) hr
    rw [canMiss_append hs he hlead, canMiss_cons hs (hlead.mem he) hr hn hname, hnull, Bool.true_or,
      Bool.or_true]

end Sound

/-! ## A table of joins -/

/-- Joins by their chains, each with whether it is outer. -/
abbrev JoinTable := List (List String × Bool)

namespace JoinTable

/-- A join that is there already stays as it is. -/
def note (joins : JoinTable) (chain : List String) (outer : Bool) : JoinTable :=
  if (joins.map Prod.fst).contains chain then joins else joins ++ [(chain, outer)]

/-- Notes a join for each of some references. A join is outer if the one before it is, or if its
reference can be null. -/
def walk (s : Schema) : JoinTable → List String → Bool → Entity → List String → JoinTable
  | joins, _, _, _, [] => joins
  | joins, walked, outer, e, part :: rest =>
    match e.relationship? part with
    | some (.single r) =>
      match s.entity? r.target with
      | some next =>
        walk s (joins.note (walked ++ [part]) (outer || r.nullable)) (walked ++ [part])
          (outer || r.nullable) next rest
      | none => joins
    | _ => joins

/-- The joins that some chains leave behind, one chain after another. -/
def ofChains (s : Schema) (root : Entity) (chains : List (List String)) : JoinTable :=
  chains.foldl (fun joins chain => joins.walk s [] false root chain) []

def sorted (joins : JoinTable) : JoinTable := joins.mergeSort fun a b => chainBefore a.1 b.1

/-- What a table keeps: one join for each chain of a set, and for each the right kind. -/
structure Keeps (s : Schema) (root : Entity) (chains : List String → Prop) (joins : JoinTable) :
    Prop where
  mem : ∀ chain, chain ∈ joins.map Prod.fst ↔ chains chain
  nodup : (joins.map Prod.fst).Nodup
  kind : ∀ j ∈ joins, j.2 = canMiss s root j.1

theorem Keeps.note {chains : List String → Prop} {joins : JoinTable} (h : Keeps s root chains joins)
    (chain : List String) :
    Keeps s root (fun c => chains c ∨ c = chain) (joins.note chain (canMiss s root chain)) := by
  unfold JoinTable.note
  split
  · next hin =>
    refine ⟨fun c => ?_, h.nodup, h.kind⟩
    rw [h.mem]
    refine ⟨.inl, ?_⟩
    rintro (hc | rfl)
    · exact hc
    · exact (h.mem _).1 (List.contains_iff_mem.1 hin)
  · next hout =>
    refine ⟨fun c => ?_, ?_, ?_⟩
    · rw [List.map_append, List.mem_append, h.mem, List.map_singleton, List.mem_singleton]
    · rw [List.map_append, List.nodup_append]
      refine ⟨h.nodup, List.nodup_singleton _, ?_⟩
      rintro a ha b hb rfl
      obtain rfl : a = chain := List.mem_singleton.1 hb
      exact hout (List.contains_iff_mem.2 ha)
    · intro j hj
      rcases List.mem_append.1 hj with hj | hj
      · exact h.kind j hj
      · rw [List.mem_singleton.1 hj]

theorem Keeps.congr {chains chains' : List String → Prop} {joins : JoinTable}
    (h : Keeps s root chains joins) (heq : ∀ c, chains c ↔ chains' c) :
    Keeps s root chains' joins :=
  ⟨fun c => (h.mem c).trans (heq c), h.nodup, h.kind⟩

section Sound

variable (hs : s.Sound) (hroot : root ∈ s.entities)

include hs hroot

/-- A walk adds the joins of the chains that it comes through. -/
theorem Keeps.walk {e last : Entity} {rest : List String} (hrest : Leads s e rest last)
    {chains : List String → Prop} {joins : JoinTable} (h : Keeps s root chains joins)
    {walked : List String} (hwalked : Leads s root walked e) :
    Keeps s root (fun c => chains c ∨ ∃ more, more ≠ [] ∧ more <+: rest ∧ c = walked ++ more)
      (joins.walk s walked (canMiss s root walked) e rest) := by
  induction hrest generalizing chains joins walked with
  | here e =>
    refine h.congr fun c => (or_iff_left ?_).symm
    rintro ⟨more, hne, hprefix, -⟩
    exact hne (List.prefix_nil.1 hprefix)
  | @onward e next last r rest reference declared target hrest ih =>
    have he := hwalked.mem hroot
    have hfound : e.relationship? r.name = some (.single r) :=
      (relationship?_eq_some (hs.entities e he)).2 ⟨reference, rfl⟩
    have htarget := (Schema.entity?_eq_some hs.distinct _ _).2 ⟨declared, target⟩
    -- The kind is handed on from join to join, so it is always that of the chain walked so far.
    have hkind : (canMiss s root walked || r.nullable) = canMiss s root (walked ++ [r.name]) := by
      rw [canMiss_append hs hroot hwalked, canMiss_cons hs he reference declared target, canMiss,
        Bool.or_false]
    have hnext := ih (h.note (walked ++ [r.name]))
      (hwalked.append (.onward reference declared target (.here next)))
    rw [JoinTable.walk]
    simp only [hfound, htarget, hkind]
    refine hnext.congr fun c => ?_
    rw [or_assoc]
    refine or_congr_right ⟨?_, ?_⟩
    · rintro (rfl | ⟨more, hne, hprefix, rfl⟩)
      · exact ⟨[r.name], List.cons_ne_nil _ _, ⟨rest, rfl⟩, rfl⟩
      · exact ⟨r.name :: more, List.cons_ne_nil _ _, (List.prefix_cons_inj _).2 hprefix, by simp⟩
    · rintro ⟨more, hne, hprefix, rfl⟩
      obtain ⟨part, more, rfl⟩ := List.exists_cons_of_ne_nil hne
      obtain ⟨rfl, hmore⟩ := List.cons_prefix_cons.1 hprefix
      by_cases hnil : more = []
      · exact .inl (hnil ▸ rfl)
      · exact .inr ⟨more, hnil, hmore, by simp⟩

theorem keeps_foldl {mentioned : List (List String)}
    (hlead : ∀ chain ∈ mentioned, ∃ last, Leads s root chain last) {chains : List String → Prop}
    {joins : JoinTable} (h : Keeps s root chains joins) :
    Keeps s root (fun c => chains c ∨ ∃ whole ∈ mentioned, c ≠ [] ∧ c <+: whole)
      (mentioned.foldl (fun joins chain => joins.walk s [] false root chain) joins) := by
  induction mentioned generalizing chains joins with
  | nil => exact h.congr fun c => by simp
  | cons whole rest ih =>
    obtain ⟨last, hwhole⟩ := hlead whole List.mem_cons_self
    have hstep := h.walk hs hroot hwhole (.here root)
    refine (ih (fun c hc => hlead c (List.mem_cons_of_mem _ hc)) hstep).congr fun c => ?_
    rw [or_assoc]
    refine or_congr_right ?_
    simp only [List.nil_append, List.mem_cons, exists_eq_or_imp]
    refine or_congr_left ⟨?_, fun ⟨hne, hprefix⟩ => ⟨c, hne, hprefix, rfl⟩⟩
    rintro ⟨more, hne, hprefix, rfl⟩
    exact ⟨hne, hprefix⟩

/-- However the chains are mentioned, the table in its order has the same joins. -/
theorem sorted_ofChains {mentioned : List (List String)}
    (hlead : ∀ chain ∈ mentioned, ∃ last, Leads s root chain last) :
    (ofChains s root mentioned).sorted =
      (joinedChains mentioned).map fun chain => (chain, canMiss s root chain) := by
  have hkeeps : Keeps s root (fun c => c ∈ joinedChains mentioned) (ofChains s root mentioned) := by
    have hempty : Keeps s root (fun _ => False) [] := ⟨by simp, List.nodup_nil, nofun⟩
    refine (keeps_foldl hs hroot hlead hempty).congr fun c => ?_
    rw [mem_joinedChains, false_or]
  -- Two sorted tables of the same joins are one: equal chains have equal kinds.
  refine List.Perm.eq_of_pairwise ?_
    (List.pairwise_mergeSort (fun a b c => chainBefore_trans a.1 b.1 c.1)
      (fun a b => chainBefore_total a.1 b.1) _)
    (List.pairwise_map.2 (pairwise_joinedChains mentioned)) ?_
  · intro a b ha hb hab hba
    obtain ⟨chain, -, rfl⟩ := List.mem_map.1 hb
    have hchain := chainBefore_antisymm hab hba
    exact Prod.ext hchain
      ((hkeeps.kind a ((List.mergeSort_perm _ _).mem_iff.1 ha)).trans (by rw [hchain]))
  · refine (List.mergeSort_perm _ _).trans ?_
    refine (List.perm_ext_iff_of_nodup hkeeps.nodup.of_map
      ((nodup_joinedChains mentioned).map fun _ _ h => (Prod.ext_iff.1 h).1)).2 fun j => ?_
    rw [List.mem_map]
    constructor
    · intro hj
      exact ⟨j.1, (hkeeps.mem _).1 (List.mem_map_of_mem hj), Prod.ext rfl (hkeeps.kind j hj).symm⟩
    · rintro ⟨chain, hchain, rfl⟩
      obtain ⟨j, hj, rfl⟩ := List.mem_map.1 ((hkeeps.mem chain).2 hchain)
      rwa [← hkeeps.kind j hj]

end Sound

end JoinTable

/-! ## The clause -/

/-- The join of a chain reads the table that the last reference leads to, and finds there the key
that the chain before it has for the reference. -/
def Attaches (s : Schema) (root : Entity) (chain : List String) (j : Sql.Join) : Prop :=
  ∃ before parent r target, chain = before ++ [Reference.name r] ∧ Leads s root before parent ∧
    .single r ∈ parent.relationships ∧ target ∈ s.entities ∧ target.name = r.target ∧
    j.source = ⟨target.name, .joined chain⟩ ∧
    j.left = ⟨occurrence root before, r.name, keyType target⟩ ∧
    j.right = keyColumn target (.joined chain) ∧ (j.outer = true ↔ MayMiss s root chain)

/-- Joins by their chains: all that lead to a mentioned chain, each once and after its parent. -/
structure Clause (s : Schema) (root : Entity) (mentions : List String → Prop)
    (chains : List (List String)) (joins : List Sql.Join) : Prop where
  mem : ∀ chain, chain ∈ chains ↔ chain ≠ [] ∧ ∃ whole, mentions whole ∧ chain <+: whole
  nodup : chains.Nodup
  rooted : Rooted [] chains
  attaches : List.Forall₂ (Attaches s root) chains joins

theorem attaches_of_joinOf (hs : s.Sound) (hroot : root ∈ s.entities) {chain : List String}
    {last : Entity} (h : Leads s root chain last) (hne : chain ≠ []) {j : Sql.Join}
    (hj : joinOf s root chain = .ok j) : Attaches s root chain j := by
  have hmiss := canMiss_iff hs hroot h
  obtain ⟨before, parent, r, rfl, hbefore, hr, ht, hname⟩ := h.exists_last hne
  obtain rfl := Except.ok.inj ((joinOf_of_leads hs hroot hbefore hr ht hname).symm.trans hj)
  exact ⟨before, parent, r, last, rfl, hbefore, hr, ht, hname, rfl, rfl, rfl, hmiss⟩

/-- The joins that a mentioned set of chains has in any query. -/
theorem clause_joinedChains (hs : s.Sound) (hroot : root ∈ s.entities)
    {mentioned : List (List String)} {mentions : List String → Prop}
    (hmem : ∀ chain, chain ∈ mentioned ↔ mentions chain)
    (hlead : ∀ chain ∈ mentioned, ∃ last, Leads s root chain last) {joins : List Sql.Join}
    (hjoins : (joinedChains mentioned).mapM (joinOf s root) = .ok joins) :
    Clause s root mentions (joinedChains mentioned) joins where
  mem chain := by
    simp only [mem_joinedChains, hmem]
    exact ⟨fun ⟨whole, hm, hne, hp⟩ => ⟨hne, whole, hm, hp⟩,
      fun ⟨hne, whole, hm, hp⟩ => ⟨whole, hm, hne, hp⟩⟩
  nodup := nodup_joinedChains mentioned
  rooted := rooted_joinedChains mentioned
  attaches := by
    refine Outcome.forall₂_of_mapM (fun chain hchain j hj => ?_) hjoins
    obtain ⟨whole, hwhole, hne, rest, rfl⟩ := mem_joinedChains.1 hchain
    obtain ⟨last, hlast⟩ := hlead _ hwhole
    obtain ⟨m, hbefore, -⟩ := hlast.split
    exact attaches_of_joinOf hs hroot hbefore hne hj

theorem Plan.clause_of_compileOver (hs : s.Sound) (hroot : root ∈ s.entities) {p : Plan}
    {d : Dialect} {c : Compiled} (h : p.compileOver d s root = .ok c) :
    Clause s root (p.Mentions s root) (joinedChains (p.chains s root)) c.select.joins := by
  have haccepted := accepted_of_compileOver hs hroot h
  obtain ⟨_, _, _, _, -, -, -, -, hjoins, rfl⟩ := compileOver_eq_ok h
  exact clause_joinedChains hs hroot (haccepted.mem_chains hs hroot)
    (haccepted.exists_leads hs hroot) hjoins

/-- The FROM clause of a compiled plan. It is settled by the chains that the plan mentions: a table
of joins that takes them in any order holds these joins, and a plan that mentions the same has the
same. -/
theorem Plan.fromClause_compile (hs : s.Valid) {p : Plan} {d : Dialect} {c : Compiled}
    (h : p.compile d s = .ok c) :
    ∃ root chains, s.entity? p.entity = some root ∧ c.select.source = { table := root.name } ∧
      Clause s root (p.Mentions s root) chains c.select.joins ∧
      (∀ mentioned, (∀ chain, chain ∈ mentioned ↔ p.Mentions s root chain) →
        (JoinTable.ofChains s root mentioned).sorted.map (fun j => (Occurrence.joined j.1, j.2)) =
          c.select.joins.map fun j => (j.source.occurrence, j.outer)) ∧
      ∀ (q : Plan) (d' : Dialect) (c' : Compiled), q.compile d' s = .ok c' → q.entity = p.entity →
        (∀ chain, chain ≠ [] → (q.Mentions s root chain ↔ p.Mentions s root chain)) →
        c'.select.source = c.select.source ∧ c'.select.joins = c.select.joins := by
  have hsound := (Schema.valid_iff_sound s).1 hs
  obtain ⟨root, hroot, hover⟩ := compileOver_of_compile h
  have hin : root ∈ s.entities := List.mem_of_find?_eq_some hroot
  have haccepted := accepted_of_compileOver hsound hin hover
  have hmem := mentions_iff hs h hroot
  have hclause := clause_of_compileOver hsound hin hover
  obtain ⟨_, _, _, joins, -, -, -, -, hjoins, rfl⟩ := compileOver_eq_ok hover
  refine ⟨root, _, hroot, rfl, hclause, fun mentioned hmentioned => ?_,
    fun q d' c' hq hentity hsame => ?_⟩
  · have heq : joinedChains mentioned = joinedChains (p.chains s root) :=
      joinedChains_congr fun chain _ => (hmentioned chain).trans (hmem chain)
    have hlead : ∀ chain ∈ mentioned, ∃ last, Leads s root chain last := fun chain hchain =>
      haccepted.exists_leads hsound hin chain ((hmem chain).1 ((hmentioned chain).1 hchain))
    rw [JoinTable.sorted_ofChains hsound hin hlead, heq, List.map_map]
    refine map_eq_map_of_forall₂ (Outcome.forall₂_of_mapM (fun chain hchain j hj => ?_) hjoins)
    obtain ⟨_, _, _, _, -, -, -, rfl⟩ := joinOf_eq_ok hj
    obtain ⟨_, -, hne, -⟩ := mem_joinedChains.1 hchain
    rw [occurrence_of_ne hne]
    rfl
  · obtain ⟨root', hroot', hover'⟩ := compileOver_of_compile hq
    obtain rfl : root' = root := Option.some.inj (hroot'.symm.trans (hentity ▸ hroot))
    have hmem' := mentions_iff hs hq hroot'
    obtain ⟨_, _, _, joins', -, -, -, -, hjoins', rfl⟩ := compileOver_eq_ok hover'
    have heq : joinedChains (q.chains s root') = joinedChains (p.chains s root') :=
      joinedChains_congr fun chain hne =>
        (hmem' chain).symm.trans ((hsame chain hne).trans (hmem chain))
    rw [heq] at hjoins'
    exact ⟨rfl, Except.ok.inj (hjoins'.symm.trans hjoins)⟩

/-- Books together with their writers, of which nothing is shown or tested. -/
def accompanied : Plan := ({ entity := "Book" } : Plan).join ["writer"]

/-- The writers of labelled books are joined as an extra join would join them. -/
theorem fromClause_labelled :
    ∃ c c', labelled.compile .sqlite library = .ok c ∧
      accompanied.compile .postgresql library = .ok c' ∧ c'.select.joins = c.select.joins ∧
      c.select.joins ≠ [] := by
  have hs : library.Valid := by decide +kernel
  obtain ⟨c, hc⟩ := Outcome.exists_ok (x := labelled.compile .sqlite library) (by decide +kernel)
  obtain ⟨c', hc'⟩ :=
    Outcome.exists_ok (x := accompanied.compile .postgresql library) (by decide +kernel)
  obtain ⟨book, chains, hbook, -, hclause, -, hsame⟩ := Plan.fromClause_compile hs hc
  have hmem := Plan.mentions_iff hs hc hbook
  have hmem' := Plan.mentions_iff hs hc' hbook
  obtain rfl := Option.some.inj (hbook.symm.trans rfl)
  refine ⟨c, c', hc, hc', (hsame _ _ c' hc' rfl fun chain hne => ?_).2, fun hnil => ?_⟩
  · rw [hmem, hmem']
    change chain ∈ [["writer"]] ↔ chain ∈ [[], ["writer"], [], ["writer"]]
    simp [hne]
  · have hwriter : ["writer"] ∈ chains :=
      (hclause.mem _).2 ⟨by simp, _, (hmem ["writer"]).2 (by decide +kernel), List.prefix_refl _⟩
    have hlength := hclause.attaches.length_eq
    rw [hnil, List.length_nil, List.length_eq_zero_iff] at hlength
    simp [hlength] at hwriter

end SchemaLedger.Query
