import Mathlib.Data.List.Lex
import SchemaLedger.Proofs.Query.Path
import SchemaLedger.Proofs.Schema.Declarations

set_option autoImplicit false

/-!
# Joins

The joins of a query give one scope for each row of its root: each join finds the row that its chain
of references leads to, or makes up a row of nulls where the chain leads nowhere. It is joined after
the chain before it, which is shorter; keys are unique, so it finds at most one row; and a chain that
can lead nowhere is joined outer, so it loses none.
-/
namespace SchemaLedger.Query

open Sql (Cells Contents Row Occurrence)

/-! ## Chains -/

theorem mem_prefixes {α : Type} {p xs : List α} : p ∈ prefixes xs ↔ p ≠ [] ∧ p <+: xs := by
  induction xs generalizing p with
  | nil => simp [prefixes]
  | cons x rest ih =>
    rw [prefixes, List.mem_cons, List.mem_map]
    constructor
    · rintro (rfl | ⟨q, hq, rfl⟩)
      · exact ⟨List.cons_ne_nil _ _, rest, rfl⟩
      · exact ⟨List.cons_ne_nil _ _, (List.prefix_cons_inj x).2 (ih.1 hq).2⟩
    · rintro ⟨hne, hp⟩
      obtain ⟨y, q, rfl⟩ := List.exists_cons_of_ne_nil hne
      obtain ⟨rfl, hq⟩ := List.cons_prefix_cons.1 hp
      by_cases hnil : q = []
      · exact .inl (hnil ▸ rfl)
      · exact .inr ⟨q, ih.2 ⟨hnil, hq⟩, rfl⟩

theorem nodup_eraseDups (xs : List (List String)) : xs.eraseDups.Nodup := by
  induction h : xs.length using Nat.strongRecOn generalizing xs with
  | ind n ih =>
    cases xs with
    | nil => exact List.nodup_nil
    | cons x rest =>
      rw [List.eraseDups_cons, List.nodup_cons]
      refine ⟨by simp, ih _ ?_ _ rfl⟩
      rw [← h, List.length_cons]
      exact Nat.lt_succ_of_le (List.length_filter_le _ _)

theorem chainBefore_iff (a b : List String) :
    chainBefore a b = true ↔ a.length < b.length ∨ a.length = b.length ∧ b.lex a = false := by
  rw [chainBefore, Bool.or_eq_true, Bool.and_eq_true, Bool.not_eq_true', decide_eq_true_eq,
    decide_eq_true_eq]

theorem mem_joinedChains {chain : List String} {chains : List (List String)} :
    chain ∈ joinedChains chains ↔ ∃ c ∈ chains, chain ≠ [] ∧ chain <+: c := by
  simp only [joinedChains, List.mem_mergeSort, List.mem_eraseDups, List.mem_flatMap, mem_prefixes]

theorem nodup_joinedChains (chains : List (List String)) : (joinedChains chains).Nodup :=
  (List.mergeSort_perm _ _).nodup_iff.2 (nodup_eraseDups _)

theorem chainBefore_trans (a b c : List String) (hab : chainBefore a b = true)
    (hbc : chainBefore b c = true) : chainBefore a c = true := by
  rw [chainBefore_iff] at *
  rcases hab with hab | ⟨hab, hle⟩ <;> rcases hbc with hbc | ⟨hbc, hle'⟩
  · exact .inl (by omega)
  · exact .inl (by omega)
  · exact .inl (by omega)
  · have hle'' := List.le_trans (List.lex_eq_false_iff_ge.1 hle) (List.lex_eq_false_iff_ge.1 hle')
    exact .inr ⟨by omega, List.lex_eq_false_iff_ge.2 hle''⟩

theorem chainBefore_total (a b : List String) : (chainBefore a b || chainBefore b a) = true := by
  rw [Bool.or_eq_true, chainBefore_iff, chainBefore_iff]
  rcases Nat.lt_trichotomy a.length b.length with h | h | h
  · exact .inl (.inl h)
  · rcases List.le_total a b with hle | hle
    · exact .inl (.inr ⟨h, List.lex_eq_false_iff_ge.2 hle⟩)
    · exact .inr (.inr ⟨h.symm, List.lex_eq_false_iff_ge.2 hle⟩)
  · exact .inr (.inl h)

theorem chainBefore_antisymm {a b : List String} (hab : chainBefore a b = true)
    (hba : chainBefore b a = true) : a = b := by
  rw [chainBefore_iff] at *
  rcases hab with hab | ⟨hab, hle⟩ <;> rcases hba with hba | ⟨hba, hle'⟩
  · omega
  · omega
  · omega
  · exact List.le_antisymm (List.lex_eq_false_iff_ge.1 hle) (List.lex_eq_false_iff_ge.1 hle')

theorem pairwise_joinedChains (chains : List (List String)) :
    (joinedChains chains).Pairwise fun a b => chainBefore a b = true :=
  List.pairwise_mergeSort chainBefore_trans chainBefore_total _

theorem sorted_joinedChains (chains : List (List String)) :
    (joinedChains chains).Pairwise fun a b => a.length ≤ b.length := by
  refine (pairwise_joinedChains chains).imp fun {a b} h => ?_
  rcases (chainBefore_iff a b).1 h with h | h <;> omega

/-- A list of chains, each after the chain before it and none twice, when some stand already. -/
def Rooted : List (List String) → List (List String) → Prop
  | _, [] => True
  | done, chain :: rest =>
    (chain ≠ [] ∧ chain ∉ done ∧ (chain.dropLast = [] ∨ chain.dropLast ∈ done)) ∧
      Rooted (done ++ [chain]) rest

theorem rooted_of_sorted {done rest : List (List String)} (hd : (done ++ rest).Nodup)
    (hs : rest.Pairwise fun a b => a.length ≤ b.length)
    (hc : ∀ chain ∈ rest, chain ≠ [] ∧ (chain.dropLast = [] ∨ chain.dropLast ∈ done ++ rest)) :
    Rooted done rest := by
  induction rest generalizing done with
  | nil => trivial
  | cons chain rest ih =>
    obtain ⟨hhead, hrest⟩ := List.pairwise_cons.1 hs
    obtain ⟨hne, hparent⟩ := hc chain List.mem_cons_self
    have hsplit : done ++ chain :: rest = done ++ [chain] ++ rest := by simp
    refine ⟨⟨hne, fun h => ?_, ?_⟩, ih (hsplit ▸ hd) hrest fun c hm => ?_⟩
    · exact (List.nodup_append.1 hd).2.2 chain h chain List.mem_cons_self rfl
    · rcases hparent with h | h
      · exact .inl h
      · have hlt : chain.dropLast.length < chain.length := by
          rw [List.length_dropLast]
          have := List.length_pos_iff.2 hne
          omega
        rcases List.mem_append.1 h with h | h
        · exact .inr h
        · exfalso
          rcases List.mem_cons.1 h with heq | h
          · rw [heq] at hlt
            exact lt_irrefl _ hlt
          · exact absurd (hhead _ h) (by omega)
    · rw [← hsplit]
      exact hc c (List.mem_cons_of_mem _ hm)

theorem rooted_joinedChains (chains : List (List String)) : Rooted [] (joinedChains chains) := by
  refine rooted_of_sorted ?_ (sorted_joinedChains chains) fun chain h => ?_
  · exact nodup_joinedChains chains
  · obtain ⟨c, hc, hne, hp⟩ := mem_joinedChains.1 h
    refine ⟨hne, ?_⟩
    by_cases hnil : chain.dropLast = []
    · exact .inl hnil
    · exact .inr (mem_joinedChains.2 ⟨c, hc, hnil, (List.dropLast_prefix chain).trans hp⟩)

/-! ## Rows that references lead to -/

variable {C : Cells} {s : Schema} {db : Contents C}

/-- Of rows that do not pass a test together, a filter keeps the first that passes it. -/
theorem filter_eq_find? {α : Type} {test : α → Bool} {xs : List α}
    (h : xs.Pairwise fun a b => test a = true → test b = false) :
    xs.filter test = (xs.find? test).toList := by
  induction xs with
  | nil => rfl
  | cons x rest ih =>
    obtain ⟨hx, hrest⟩ := List.pairwise_cons.1 h
    cases ht : test x with
    | true =>
      rw [List.filter_cons_of_pos ht, List.find?_cons_of_pos ht]
      have hnone : rest.filter test = [] :=
        List.filter_eq_nil_iff.2 fun y hy => by simp [hx y hy ht]
      rw [hnone]
      rfl
    | false =>
      rw [List.filter_cons_of_neg (by simp [ht]), List.find?_cons_of_neg (by simp [ht]), ih hrest]

/-- At most one row has the key that a reference holds. -/
theorem filter_referenced (hdb : Satisfies s db) {target : Entity} (ht : target ∈ s.entities)
    (v : Option C.Cell) :
    (db target.name).filter (fun t => C.same (keyType target) v (t (keyName target))) =
      (referenced db target v).toList := by
  refine filter_eq_find? ((hdb.unique target ht).imp fun {a b} hab ha => ?_)
  rw [← Bool.not_eq_true]
  intro hb
  rw [Cells.same_comm] at ha
  rw [Cells.same_trans ha hb] at hab
  cases hab

theorem referenced_none (target : Entity) : referenced db target none = none := by
  rw [referenced, List.find?_eq_none]
  intro t _
  simp [Cells.same_none]

theorem mem_of_referenced {target : Entity} {v : Option C.Cell} {t : Row C}
    (h : referenced db target v = some t) : t ∈ db target.name :=
  List.mem_of_find?_eq_some h

theorem isSome_referenced (hdb : Satisfies s db) {e target : Entity} (he : e ∈ s.entities)
    (ht : target ∈ s.entities) {r : Reference} (hr : r ∈ e.references) (hn : target.name = r.target)
    {row : Row C} (hrow : row ∈ db e.name) (hv : (row r.name).isSome = true) :
    (referenced db target (row r.name)).isSome = true := by
  obtain ⟨t, htm, hsame⟩ := hdb.targets e he r hr target ht hn row hrow hv
  rw [referenced, List.find?_isSome]
  exact ⟨t, htm, hsame⟩

/-- A reference of an entity, and the entity it leads to. -/
theorem single_of_relationship? {e target : Entity} {part : String} {r : Reference}
    (hr : e.relationship? part = some (.single r)) (ht : s.entity? r.target = some target) :
    r ∈ e.references ∧ r.name = part ∧ target ∈ s.entities ∧ target.name = r.target := by
  obtain ⟨hm, hn⟩ := relationship?_mem hr
  exact ⟨(e.mem_references r).2 hm, hn, List.mem_of_find?_eq_some ht,
    by simpa using List.find?_some ht⟩

/-- Where no reference can be null, a chain leads from every row to a row. -/
theorem isSome_follow (hdb : Satisfies s db) {path : String} {chain : List String} {e e' : Entity}
    (he : e ∈ s.entities) (h : Path.walk s path e chain = .ok e') (hm : canMiss s e chain = false)
    {row : Row C} (hrow : row ∈ db e.name) : (follow s db e (some row) chain).isSome = true := by
  induction chain generalizing e row with
  | nil => rfl
  | cons part rest ih =>
    obtain ⟨r, next, hr, hnext, hrest⟩ := Path.walk_cons_eq_ok.1 h
    obtain ⟨href, rfl, hmem, hname⟩ := single_of_relationship? hr hnext
    rw [canMiss] at hm
    simp only [hr, hnext, Option.any_some, Bool.or_eq_false_iff] at hm
    have hcell := hdb.references e he r href hm.1 row hrow
    obtain ⟨t, ht⟩ := Option.isSome_iff_exists.1
      (isSome_referenced hdb he hmem href hname hrow hcell)
    rw [follow]
    simp only [hr, hnext, Option.bind_some, ht]
    exact ih hmem hrest hm.2 (mem_of_referenced ht)

/-! ## Scopes -/

/-- The scope of a row of the root in which some chains are joined. -/
def rowScope (s : Schema) (db : Contents C) (root : Entity) (chains : List (List String))
    (row : Row C) : Sql.Scope C
  | .table name => if name = root.name then row else C.nullRow
  | .joined chain =>
    if chain ∈ chains then (follow s db root (some row) chain).getD C.nullRow else C.nullRow
  | _ => C.nullRow

theorem put_empty (root : Entity) (row : Row C) :
    Sql.Scope.empty.put (.table root.name) row = rowScope s db root [] row := by
  funext o
  cases o with
  | table name =>
    by_cases h : name = root.name
    · subst h
      simp [Sql.Scope.put, rowScope]
    · simp [Sql.Scope.put, rowScope, h, Sql.Scope.empty]
  | _ => simp [Sql.Scope.put, rowScope, Sql.Scope.empty, Function.update_of_ne]

theorem put_rowScope (root : Entity) (done : List (List String)) (chain : List String)
    (row : Row C) :
    (rowScope s db root done row).put (.joined chain)
        ((follow s db root (some row) chain).getD C.nullRow) =
      rowScope s db root (done ++ [chain]) row := by
  funext o
  cases o with
  | joined other =>
    by_cases h : other = chain
    · subst h
      simp [Sql.Scope.put, rowScope]
    · simp [Sql.Scope.put, rowScope, h]
  | _ => simp [Sql.Scope.put, rowScope, Function.update_of_ne]

theorem occurrence_of_ne {chain : List String} (h : chain ≠ []) (root : Entity) :
    occurrence root chain = .joined chain := by
  simp [occurrence, h]

/-- In the scope of a row, a joined chain is read where it leads. -/
theorem read_rowScope {root : Entity} {chains : List (List String)} {chain : List String}
    (h : chain = [] ∨ chain ∈ chains) (row : Row C) (name : String) (t : LogicalType) :
    (rowScope s db root chains row).read ⟨occurrence root chain, name, t⟩ =
      (follow s db root (some row) chain).bind (· name) := by
  by_cases hnil : chain = []
  · subst hnil
    simp [Sql.Scope.read, occurrence, rowScope, follow]
  · have hm : chain ∈ chains := h.resolve_left hnil
    rw [occurrence_of_ne hnil, Sql.Scope.read, rowScope, if_pos hm]
    cases follow s db root (some row) chain <;> rfl

/-! ## One join -/

theorem columnType?_single {e target : Entity} {part : String} {r : Reference} (he : e.Sound)
    (hr : e.relationship? part = some (.single r)) (ht : s.entity? r.target = some target) :
    columnType? s e part = some (keyType target) := by
  obtain ⟨href, rfl, -⟩ := single_of_relationship? hr ht
  rw [columnType?, he.field?_reference href]
  simp only [he.find?_reference href, ht, Option.map_some]

theorem joinOf_eq_ok {root : Entity} {chain : List String} {j : Sql.Join}
    (h : joinOf s root chain = .ok j) :
    ∃ path parent target t, Path.walk s path root chain.dropLast = .ok parent ∧
      Path.walk s path root chain = .ok target ∧
      columnType? s parent (chain.getLast?.getD "") = some t ∧
      j = ⟨⟨target.name, occurrence root chain⟩, canMiss s root chain,
        ⟨occurrence root chain.dropLast, chain.getLast?.getD "", t⟩,
        keyColumn target (occurrence root chain)⟩ := by
  obtain ⟨parent, hparent, h⟩ := (Outcome.bind_eq_ok _ _ _).1 h
  obtain ⟨target, htarget, h⟩ := (Outcome.bind_eq_ok _ _ _).1 h
  obtain ⟨left, hleft, hok⟩ := (Outcome.bind_eq_ok _ _ _).1 h
  cases hok
  obtain ⟨-, t, ht, rfl⟩ := columnOf_eq_ok.1 hleft
  exact ⟨_, parent, target, t, hparent, htarget, ht, rfl⟩

/-- The last reference of a chain leads on from where the chain before it leads. -/
theorem follow_concat {path last : String} {before : List String} {root m next : Entity}
    {r : Reference} {row : Row C} (hwalk : Path.walk s path root before = .ok m)
    (hr : m.relationship? last = some (.single r)) (hnext : s.entity? r.target = some next) :
    follow s db root (some row) (before ++ [last]) =
      referenced db next ((follow s db root (some row) before).bind (· last)) := by
  rw [follow_append hwalk, follow]
  simp only [hr, hnext, Option.bind_some, follow]
  cases follow s db root (some row) before with
  | none => exact (referenced_none next).symm
  | some parentRow => rfl

/-- The partners are the rows with the key that the reference holds, at most one. -/
theorem partners_rowScope (hdb : Satisfies s db) {root next : Entity} (hnext : next ∈ s.entities)
    {done : List (List String)} {before : List String} {last : String}
    (hparent : before = [] ∨ before ∈ done) (row : Row C) (outer : Bool) :
    Sql.Join.partners db (rowScope s db root done row)
      ⟨⟨next.name, .joined (before ++ [last])⟩, outer,
        ⟨occurrence root before, last, keyType next⟩,
        keyColumn next (.joined (before ++ [last]))⟩ =
      (referenced db next ((follow s db root (some row) before).bind (· last))).toList.map
        ((rowScope s db root done row).put (.joined (before ++ [last]))) := by
  have hread : ∀ t : Row C,
      ((rowScope s db root done row).put (.joined (before ++ [last])) t).read
        ⟨occurrence root before, last, keyType next⟩ =
      (follow s db root (some row) before).bind (· last) := by
    intro t
    rw [Sql.Scope.read_put_of_ne, read_rowScope hparent]
    simp only [occurrence]
    split
    · exact Occurrence.noConfusion
    · exact fun heq => by simpa using Occurrence.joined.inj heq
  rw [Sql.Join.partners, List.filter_map, ← filter_referenced hdb hnext]
  congr 1
  refine List.filter_congr fun t _ => ?_
  have hright : ((rowScope s db root done row).put (.joined (before ++ [last])) t).read
      (keyColumn next (.joined (before ++ [last]))) = t (keyName next) :=
    Sql.Scope.read_put_self _ t (keyColumn next (.joined (before ++ [last])))
  exact congrArg₂ (fun left right => C.same (keyType next) left right) (hread t) hright

/-- One join takes the scope of a row to its scope with one chain more. -/
theorem eval_joinOf (hs : s.Sound) (hdb : Satisfies s db) {root : Entity}
    (hroot : root ∈ s.entities) {done : List (List String)} {chain : List String} {j : Sql.Join}
    (hj : joinOf s root chain = .ok j) (hne : chain ≠ [])
    (hparent : chain.dropLast = [] ∨ chain.dropLast ∈ done) {row : Row C}
    (hrow : row ∈ db root.name) :
    j.eval db (rowScope s db root done row) = [rowScope s db root (done ++ [chain]) row] := by
  obtain ⟨path, parent, target, t, hwalk, hwhole, ht, rfl⟩ := joinOf_eq_ok hj
  obtain ⟨before, last, rfl⟩ : ∃ before last, chain = before ++ [last] :=
    ⟨_, _, (List.dropLast_append_getLast hne).symm⟩
  simp only [List.dropLast_concat, List.getLast?_concat, Option.getD_some] at hwalk ht hparent ⊢
  obtain ⟨m, hm, hlast⟩ := Path.walk_append_eq_ok.1 hwhole
  obtain rfl : m = parent := Except.ok.inj (hm.symm.trans hwalk)
  obtain ⟨r, next, hr, hnext, hend⟩ := Path.walk_cons_eq_ok.1 hlast
  obtain rfl : next = target := Except.ok.inj hend
  have hsound := hs.entities m (Path.mem_of_walk hroot hwalk)
  have hmem : next ∈ s.entities := List.mem_of_find?_eq_some hnext
  obtain rfl : keyType next = t := Option.some.inj ((columnType?_single hsound hr hnext).symm.trans ht)
  rw [occurrence_of_ne (by simp), ← put_rowScope]
  unfold Sql.Join.eval
  rw [partners_rowScope hdb hmem hparent, ← follow_concat hwalk hr hnext]
  cases hf : follow s db root (some row) (before ++ [last]) with
  | some t => simp
  | none =>
    have houter : canMiss s root (before ++ [last]) = true := by
      by_contra hm
      have := isSome_follow hdb hroot hwhole (Bool.eq_false_iff.2 hm) hrow
      rw [hf] at this
      cases this
    simp [houter]

/-! ## All joins -/

theorem joinAll_rowScope (hs : s.Sound) (hdb : Satisfies s db) {root : Entity}
    (hroot : root ∈ s.entities) {row : Row C} (hrow : row ∈ db root.name)
    {done todo : List (List String)} {joins : List Sql.Join} (hr : Rooted done todo)
    (hj : todo.mapM (joinOf s root) = .ok joins) :
    Sql.joinAll db joins [rowScope s db root done row] =
      [rowScope s db root (done ++ todo) row] := by
  induction todo generalizing done joins with
  | nil =>
    cases hj
    rw [List.append_nil]
    rfl
  | cons chain rest ih =>
    obtain ⟨j, others, hjoin, hothers, rfl⟩ := Outcome.mapM_cons_eq_ok.1 hj
    obtain ⟨⟨hne, -, hparent⟩, hrest⟩ := hr
    have hstep := eval_joinOf hs hdb hroot hjoin hne hparent hrow
    rw [Sql.joinAll, List.foldl_cons, List.flatMap_singleton, hstep]
    have hall := ih hrest hothers
    rw [List.append_assoc, List.singleton_append] at hall
    exact hall

/-- The joins of a query neither lose a row of its root nor repeat one. -/
theorem scan_eq_rowScopes (hs : s.Sound) (hdb : Satisfies s db) {root : Entity}
    (hroot : root ∈ s.entities) {chains : List (List String)} {joins : List Sql.Join}
    (hj : (joinedChains chains).mapM (joinOf s root) = .ok joins) :
    Sql.scan db .empty { table := root.name } joins =
      (db root.name).map (rowScope s db root (joinedChains chains)) := by
  rw [Sql.scan_eq, List.map_eq_flatMap]
  refine List.flatMap_congr fun row hrow => ?_
  rw [put_empty]
  exact joinAll_rowScope hs hdb hroot hrow (rooted_joinedChains chains) hj

end SchemaLedger.Query
