import SchemaLedger.Proofs.Query.Lookup

set_option autoImplicit false

/-!
# Grammar of paths

What the parts of a path have to be, said of the schema alone: a chain of single references, with a
column or a many-to-many relationship behind it. The compiler walks a path in two ways, once for its
column and once for its crossing, and stops at other places in each. Both find what the grammar
says, and refuse every other path.
-/
namespace SchemaLedger.Query

variable {s : Schema} {root : Entity} {path : String}

/-! ## Refusals -/

/-- An error that refuses a path or its use: an unknown field, or an unsupported expression. -/
def Refuses : Error → Prop
  | .compile f => f.kind = .unknownField ∨ f.kind = .unsupportedExpression
  | _ => False

theorem refuses_unknown {f : CompileFault} (h : f.kind = .unknownField) : Refuses (.compile f) :=
  Or.inl h

theorem refuses_unsupported {f : CompileFault} (h : f.kind = .unsupportedExpression) :
    Refuses (.compile f) :=
  Or.inr h

/-- A computation that has a result exactly if a condition holds, and refuses otherwise. -/
structure Decides {α : Type} (P : Prop) (x : Result α) : Prop where
  succeeds : (∃ a, x = .ok a) ↔ P
  refuses : ∀ err, x = .error err → Refuses err

namespace Decides

variable {α β : Type} {P Q : Prop} {x : Result α} {f : α → Result β}

theorem of_ok {a : α} (h : x = .ok a) (hp : P) : Decides P x where
  succeeds := ⟨fun _ => hp, fun _ => ⟨a, h⟩⟩
  refuses _ he := nomatch h.symm.trans he

theorem of_error {e : Error} (hr : Refuses e) (h : x = .error e) (hp : ¬ P) : Decides P x where
  succeeds := ⟨fun ⟨_, ha⟩ => (nomatch h.symm.trans ha), fun hin => absurd hin hp⟩
  refuses _ ho := Except.error.inj (h.symm.trans ho) ▸ hr

theorem congr (h : Decides P x) (hpq : P ↔ Q) : Decides Q x := ⟨h.succeeds.trans hpq, h.refuses⟩

/-- One computation after another, with a condition on the result of the first. -/
theorem bind {Q : α → Prop} (hx : Decides P x) (hf : ∀ a, x = .ok a → Decides (Q a) (f a)) :
    Decides (∃ a, x = .ok a ∧ Q a) (x >>= f) where
  succeeds := by
    rw [Outcome.exists_bind_iff]
    exact exists_congr fun a => and_congr_right fun ha => (hf a ha).succeeds
  refuses err he := by
    rcases (Outcome.bind_eq_error _ _ _).1 he with he | ⟨a, ha, he⟩
    · exact hx.refuses err he
    · exact (hf a ha).refuses err he

/-- The same where the second condition is that of any result. -/
theorem andThen (hx : Decides P x) (hf : ∀ a, x = .ok a → Decides Q (f a)) :
    Decides (P ∧ Q) (x >>= f) :=
  (hx.bind hf).congr (by rw [exists_and_right, hx.succeeds])

theorem map (h : Decides P x) (g : α → β) : Decides P (x >>= fun a => .ok (g a)) :=
  (h.bind (Q := fun _ => True) fun _ _ => .of_ok rfl trivial).congr (by simp [h.succeeds])

theorem mapM {P : α → Prop} {xs : List α} (h : ∀ a ∈ xs, Decides (P a) (f a)) :
    Decides (∀ a ∈ xs, P a) (xs.mapM f) where
  succeeds := by
    rw [Outcome.exists_mapM_iff]
    exact forall₂_congr fun a ha => (h a ha).succeeds
  refuses err he := by
    induction xs with
    | nil => cases he
    | cons a rest ih =>
      rw [List.mapM_cons] at he
      rcases (Outcome.bind_eq_error _ _ _).1 he with he | ⟨b, -, he⟩
      · exact (h a List.mem_cons_self).refuses err he
      · rcases (Outcome.bind_eq_error _ _ _).1 he with he | ⟨bs, -, he⟩
        · exact ih (fun a ha => h a (List.mem_cons_of_mem _ ha)) he
        · cases he

theorem forM {P : α → Prop} {f : α → Result Unit} {xs : List α}
    (h : ∀ a ∈ xs, Decides (P a) (f a)) : Decides (∀ a ∈ xs, P a) (xs.forM f) where
  succeeds := by
    have hunit : (∃ u, xs.forM f = .ok u) ↔ xs.forM f = .ok () :=
      ⟨fun ⟨_, hu⟩ => hu, fun hu => ⟨_, hu⟩⟩
    rw [hunit, Outcome.forM_eq_ok]
    exact forall₂_congr fun a ha => ⟨fun hok => (h a ha).succeeds.1 ⟨_, hok⟩, fun hp =>
      ((h a ha).succeeds.2 hp).elim fun _ hok => hok⟩
  refuses err he := by
    induction xs with
    | nil => cases he
    | cons a rest ih =>
      rw [List.forM_eq_forM, List.forM_cons] at he
      rcases (Outcome.bind_eq_error _ _ _).1 he with he | ⟨_, -, he⟩
      · exact (h a List.mem_cons_self).refuses err he
      · exact ih (fun a ha => h a (List.mem_cons_of_mem _ ha)) he

end Decides

/-! ## What paths lead to -/

/-- A chain of single references, with the entity that it starts at and the one that it leads to. -/
inductive Leads (s : Schema) : Entity → List String → Entity → Prop where
  | here (e : Entity) : Leads s e [] e
  | onward {e next last : Entity} {r : Reference} {chain : List String}
      (reference : .single r ∈ e.relationships) (declared : next ∈ s.entities)
      (target : next.name = r.target) (rest : Leads s next chain last) :
      Leads s e (r.name :: chain) last

/-- References and then a column: a field, or the column of one more reference. -/
def ToColumn (s : Schema) (root : Entity) (parts : List String) : Prop :=
  ∃ chain last name, parts = chain ++ [name] ∧ Leads s root chain last ∧ name ∈ last.columnNames

/-- References and then a many-to-many relationship, at most a column of its target after it. -/
def ToLink (s : Schema) (root : Entity) (parts : List String) : Prop :=
  ∃ chain owner link rest, parts = chain ++ link.name :: rest ∧ Leads s root chain owner ∧
    .many link ∈ owner.relationships ∧
    (rest = [] ∨ ∃ target ∈ s.entities, target.name = link.target ∧ ∃ name ∈ target.columnNames,
      rest = [name])

/-- One reference at least, and nothing else. -/
def IsChain (s : Schema) (root : Entity) (parts : List String) : Prop :=
  parts ≠ [] ∧ ∃ last, Leads s root parts last

/-- What a predicate can look at. -/
def Testable (s : Schema) (root : Entity) (parts : List String) : Prop :=
  ToColumn s root parts ∨ ToLink s root parts

namespace Leads

variable {e m last : Entity} {chain more : List String}

theorem mem (h : Leads s e chain last) (he : e ∈ s.entities) : last ∈ s.entities := by
  induction h with
  | here => exact he
  | onward _ declared _ _ ih => exact ih declared

theorem append (h : Leads s e chain m) (hmore : Leads s m more last) :
    Leads s e (chain ++ more) last := by
  induction h with
  | here => exact hmore
  | onward reference declared target _ ih => exact .onward reference declared target (ih hmore)

theorem split {before rest : List String} (h : Leads s e (before ++ rest) last) :
    ∃ m, Leads s e before m ∧ Leads s m rest last := by
  induction before generalizing e with
  | nil => exact ⟨e, .here e, h⟩
  | cons part before ih =>
    cases h with
    | onward reference declared target h =>
      obtain ⟨m, hbefore, hrest⟩ := ih h
      exact ⟨m, .onward reference declared target hbefore, hrest⟩

/-- The last reference of a chain. -/
theorem exists_last (h : Leads s e chain last) (hne : chain ≠ []) :
    ∃ before parent r, chain = before ++ [r.name] ∧ Leads s e before parent ∧
      .single r ∈ parent.relationships ∧ last ∈ s.entities ∧ last.name = r.target := by
  rw [← List.dropLast_append_getLast hne] at h
  obtain ⟨parent, hbefore, hlast⟩ := h.split
  generalize hg : chain.getLast hne = part at hlast
  cases hlast with
  | @onward _ next _ r _ reference declared target rest =>
    cases rest
    refine ⟨chain.dropLast, parent, r, ?_, hbefore, reference, declared, target⟩
    rw [← hg, List.dropLast_append_getLast]

end Leads

theorem relationship?_eq_some {e : Entity} (he : e.Sound) {name : String} {r : Relationship} :
    e.relationship? name = some r ↔ r ∈ e.relationships ∧ r.name = name :=
  Keyed.find?_eq_some he.relationshipNames name r

/-- A column shares its name with no many-to-many relationship. -/
theorem ne_of_column {e : Entity} (he : e.Sound) {name : String} (hn : name ∈ e.columnNames)
    {l : ManyLink} (hl : .many l ∈ e.relationships) : l.name ≠ name := by
  rintro rfl
  rcases (e.mem_columnNames _).1 hn with ⟨f, hf, hname⟩ | ⟨r, hr, hname⟩
  · exact he.apart hf hl hname
  · exact nomatch List.inj_on_of_nodup_map he.relationshipNames hl ((e.mem_references r).1 hr)
      hname.symm

section Sound

variable (hs : s.Sound)

include hs

theorem exists_target {e : Entity} (he : e ∈ s.entities) {r : Relationship}
    (hr : r ∈ e.relationships) :
    ∃ target, s.entity? r.target = some target ∧ target ∈ s.entities ∧ target.name = r.target := by
  obtain ⟨target, ht, hname⟩ := hs.targets e.name r ⟨e, he, rfl, hr⟩
  exact ⟨target, (Schema.entity?_eq_some hs.distinct _ _).2 ⟨ht, hname⟩, ht, hname⟩

/-! ## Walks -/

theorem walk_eq_ok {e last : Entity} (he : e ∈ s.entities) {chain : List String} :
    Path.walk s path e chain = .ok last ↔ Leads s e chain last := by
  constructor
  · intro h
    induction chain generalizing e with
    | nil =>
      cases h
      exact .here _
    | cons part rest ih =>
      obtain ⟨r, next, hr, hnext, hwalk⟩ := Path.walk_cons_eq_ok.1 h
      obtain ⟨hin, rfl⟩ := (relationship?_eq_some (hs.entities e he)).1 hr
      obtain ⟨hmem, hname⟩ := (Schema.entity?_eq_some hs.distinct _ _).1 hnext
      exact .onward hin hmem hname (ih hmem hwalk)
  · intro h
    induction h with
    | here => rfl
    | @onward e next _ r _ reference declared target _ ih =>
      refine Path.walk_cons_eq_ok.2 ⟨r, next, ?_, ?_, ih declared⟩
      · exact (relationship?_eq_some (hs.entities e he)).2 ⟨reference, rfl⟩
      · exact (Schema.entity?_eq_some hs.distinct _ _).2 ⟨declared, target⟩

theorem decides_walk {e : Entity} (he : e ∈ s.entities) (chain : List String) :
    Decides (∃ last, Leads s e chain last) (Path.walk s path e chain) where
  succeeds := exists_congr fun _ => walk_eq_ok hs he
  refuses err h := by
    induction chain generalizing e with
    | nil => cases h
    | cons part rest ih =>
      unfold Path.walk at h
      split at h
      · cases h
        exact refuses_unknown rfl
      · cases h
        exact refuses_unsupported rfl
      · next r hr =>
        obtain ⟨hin, -⟩ := (relationship?_eq_some (hs.entities e he)).1 hr
        obtain ⟨next, hnext, hmem, -⟩ := exists_target hs he hin
        rcases (Outcome.bind_eq_error _ _ _).1 h with h | ⟨m, hm, h⟩
        · exact nomatch (Path.target_eq_ok.2 hnext).symm.trans h
        · obtain rfl := Except.ok.inj ((Path.target_eq_ok.2 hnext).symm.trans hm)
          exact ih hmem h

/-! ## Columns -/

theorem decides_columnOf {e : Entity} (he : e ∈ s.entities) (source : Sql.Occurrence)
    (name : String) : Decides (name ∈ e.columnNames) (columnOf s path e source name) := by
  by_cases hn : name ∈ e.columnNames
  · obtain ⟨t, ht⟩ := exists_columnType hs he hn
    exact .of_ok (columnOf_eq_ok.2 ⟨hn, t, ht, rfl⟩) hn
  · exact .of_error (refuses_unknown rfl) (by rw [columnOf, if_neg hn, Path.unknown]) hn

/-- The column of a path is found exactly if there are references before it. -/
theorem decides_resolve (hroot : root ∈ s.entities) (path : String) :
    Decides (ToColumn s root (Path.parts path)) (resolve s root path) := by
  have hcolumn : ∀ last, Path.walk s path root (Path.chain path) = .ok last →
      Decides (Path.lastPart path ∈ last.columnNames)
        (columnOf s path last (occurrence root (Path.chain path)) (Path.lastPart path)) :=
    fun last hlast => decides_columnOf hs (((walk_eq_ok hs hroot).1 hlast).mem hroot) _ _
  refine ((decides_walk hs hroot _).bind hcolumn).congr ?_
  simp only [walk_eq_ok hs hroot]
  constructor
  · rintro ⟨last, hlead, hn⟩
    exact ⟨_, last, _, Path.parts_eq path, hlead, hn⟩
  · rintro ⟨chain, last, name, hparts, hlead, hn⟩
    obtain ⟨rfl, hname⟩ := List.append_inj' ((Path.parts_eq path).symm.trans hparts) rfl
    obtain rfl := List.singleton_inj.1 hname
    exact ⟨last, hlead, hn⟩

/-! ## Crossings -/

theorem crossingFrom_onward {e next : Entity} (he : e ∈ s.entities) {r : Reference}
    (hr : .single r ∈ e.relationships) (hnext : next ∈ s.entities) (hname : next.name = r.target)
    {parts : List String} (hne : parts ≠ []) (before : List String) :
    Path.crossingFrom s path before e (r.name :: parts) =
      Path.crossingFrom s path (before ++ [r.name]) next parts := by
  have hfound : e.relationship? r.name = some (.single r) :=
    (relationship?_eq_some (hs.entities e he)).2 ⟨hr, rfl⟩
  have htarget := Path.target_eq_ok.2 ((Schema.entity?_eq_some hs.distinct _ _).2 ⟨hnext, hname⟩)
  cases parts with
  | nil => exact absurd rfl hne
  | cons part rest =>
    rw [Path.crossingFrom.eq_def s path before]
    simp only [hfound, htarget]
    rfl

theorem crossingFrom_of_link {e owner : Entity} (he : e ∈ s.entities) {chain : List String}
    (h : Leads s e chain owner) {l : ManyLink} (hl : .many l ∈ owner.relationships)
    (before rest : List String) :
    Path.crossingFrom s path before e (chain ++ l.name :: rest) =
      .ok (some ⟨before ++ chain, owner, l, rest⟩) := by
  induction h generalizing before with
  | here e =>
    have hr : e.relationship? l.name = some (.many l) :=
      (relationship?_eq_some (hs.entities e he)).2 ⟨hl, rfl⟩
    unfold Path.crossingFrom
    simp only [List.nil_append, List.append_nil, hr]
  | @onward e next _ r chain reference declared target _ ih =>
    rw [List.cons_append, crossingFrom_onward hs he reference declared target (by simp),
      ih declared hl, List.append_assoc, List.singleton_append]

theorem crossingFrom_of_column {e last : Entity} (he : e ∈ s.entities) {chain : List String}
    (h : Leads s e chain last) {name : String} (hn : name ∈ last.columnNames)
    (before : List String) : Path.crossingFrom s path before e (chain ++ [name]) = .ok none := by
  induction h generalizing before with
  | here e =>
    unfold Path.crossingFrom
    cases hr : e.relationship? name with
    | none => simp only [List.nil_append, hr]
    | some r =>
      cases r with
      | single r => simp only [List.nil_append, hr]
      | many l =>
        obtain ⟨hl, hname⟩ := (relationship?_eq_some (hs.entities e he)).1 hr
        exact absurd hname (ne_of_column (hs.entities e he) hn hl)
  | @onward e next _ r chain reference declared target _ ih =>
    rw [List.cons_append, crossingFrom_onward hs he reference declared target (by simp),
      ih declared hn]

theorem refuses_of_crossingFrom {e : Entity} (he : e ∈ s.entities) {parts before : List String}
    {err : Error} (h : Path.crossingFrom s path before e parts = .error err) : Refuses err := by
  induction parts generalizing e before with
  | nil => cases h
  | cons part rest ih =>
    unfold Path.crossingFrom at h
    split at h
    · cases h
    · cases h
    · cases h
      exact refuses_unknown rfl
    · next r hr _ =>
      obtain ⟨hin, -⟩ := (relationship?_eq_some (hs.entities e he)).1 hr
      obtain ⟨next, hnext, hmem, -⟩ := exists_target hs he hin
      rcases (Outcome.bind_eq_error _ _ _).1 h with h | ⟨m, hm, h⟩
      · exact nomatch (Path.target_eq_ok.2 hnext).symm.trans h
      · obtain rfl := Except.ok.inj ((Path.target_eq_ok.2 hnext).symm.trans hm)
        exact ih hmem h

variable (hroot : root ∈ s.entities)

include hroot

/-- A crossing is the first many-to-many relationship behind a chain of references. -/
theorem crossing_eq_some {c : Path.Crossing} :
    Path.crossing s root path = .ok (some c) ↔ Path.parts path = c.chain ++ c.link.name :: c.rest ∧
      Leads s root c.chain c.owner ∧ .many c.link ∈ c.owner.relationships := by
  constructor
  · intro h
    obtain ⟨chain, hchain, hparts, hwalk, hlink⟩ := Path.crossingFrom_eq_some h
    rw [List.nil_append] at hchain
    subst hchain
    exact ⟨hparts, (walk_eq_ok hs hroot).1 hwalk, (relationship?_mem hlink).1⟩
  · rintro ⟨hparts, hlead, hlink⟩
    rw [Path.crossing, hparts]
    exact crossingFrom_of_link hs hroot hlead hlink [] c.rest

theorem crossing_of_column (h : ToColumn s root (Path.parts path)) :
    Path.crossing s root path = .ok none := by
  obtain ⟨chain, last, name, hparts, hlead, hn⟩ := h
  rw [Path.crossing, hparts]
  exact crossingFrom_of_column hs hroot hlead hn []

/-- A path that crosses a relationship is one to look at exactly if nothing else, or one column of
the target, stands behind it. -/
theorem testable_of_crossing {c : Path.Crossing} (h : Path.crossing s root path = .ok (some c))
    {target : Entity} (ht : s.entity? c.link.target = some target) :
    Testable s root (Path.parts path) ↔
      c.rest = [] ∨ ∃ name ∈ target.columnNames, c.rest = [name] := by
  obtain ⟨hmem, hname⟩ := (Schema.entity?_eq_some hs.distinct _ _).1 ht
  obtain ⟨hparts, hlead, hlink⟩ := (crossing_eq_some hs hroot).1 h
  constructor
  · rintro (hcolumn | ⟨chain, owner, link, rest, hp, hl, hm, hrest⟩)
    · exact nomatch h.symm.trans (crossing_of_column hs hroot hcolumn)
    · have hsame := (crossing_eq_some (c := ⟨chain, owner, link, rest⟩) hs hroot).2 ⟨hp, hl, hm⟩
      obtain rfl := Option.some.inj (Except.ok.inj (h.symm.trans hsame))
      rcases hrest with hnil | ⟨target', hmem', hname', name, hn, hrest⟩
      · exact .inl hnil
      · have heq := Schema.eq_of_name_eq hs.distinct hmem' hmem (hname'.trans hname.symm)
        exact .inr ⟨name, heq ▸ hn, hrest⟩
  · rintro (hnil | ⟨name, hn, hrest⟩)
    · exact .inr ⟨_, _, _, _, hparts, hlead, hlink, .inl hnil⟩
    · exact .inr ⟨_, _, _, _, hparts, hlead, hlink, .inr ⟨target, hmem, hname, name, hn, hrest⟩⟩

/-- Where nothing is crossed, only a column can be looked at. -/
theorem testable_of_none (h : Path.crossing s root path = .ok none) :
    Testable s root (Path.parts path) ↔ ToColumn s root (Path.parts path) := by
  refine ⟨fun ht => ht.resolve_right ?_, .inl⟩
  rintro ⟨chain, owner, link, rest, hp, hl, hm, -⟩
  have hsome := (crossing_eq_some (c := ⟨chain, owner, link, rest⟩) hs hroot).2 ⟨hp, hl, hm⟩
  exact nomatch h.symm.trans hsome

theorem not_testable_of_error {err : Error} (h : Path.crossing s root path = .error err) :
    ¬ Testable s root (Path.parts path) := by
  rintro (hcolumn | ⟨chain, owner, link, rest, hp, hl, hm, -⟩)
  · exact nomatch h.symm.trans (crossing_of_column hs hroot hcolumn)
  · have hsome := (crossing_eq_some (c := ⟨chain, owner, link, rest⟩) hs hroot).2 ⟨hp, hl, hm⟩
    exact nomatch h.symm.trans hsome

end Sound

end SchemaLedger.Query
