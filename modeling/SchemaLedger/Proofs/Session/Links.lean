import SchemaLedger.Proofs.Query.Related
import SchemaLedger.Proofs.Session.Loading

set_option autoImplicit false

/-!
# Links as sets of pairs

A database with the tables of a schema keeps the links of each many-to-many relationship in a table of
its own, as rows with the key of an owner and the key of a target. Those rows are a finite set of
pairs: no pair has two rows, adding a row adds its pair, and taking it away takes the pair away.
-/
namespace SchemaLedger

open Sql (Assignment Exchanged)

/-- A row of a join table has the keys of an owner and a target. -/
structure Database.Joins {σ : Type} {server : Server σ} {d : Dialect} {s : Schema}
    (k : Database server d s) (j : s.Linkage) (x y : Value) (row : Sql.Row k.cells) : Prop where
  admits : j.Admits x y
  owner : row "owner" = k.cells.literal j.ownerKey.type x
  has : row "has" = k.cells.literal j.targetKey.type y

/-- A database as one that keeps links: the rows of a join table have the types of the two keys, stand
once for each pair and refer to targets that there are, and what is asked of them is carried out. -/
structure Database.KeepsLinks {σ : Type} {server : Server σ} {d : Dialect} {s : Schema}
    (k : Database server d s) : Prop where
  typed : ∀ st (j : s.Linkage), ∀ row ∈ k.rows st j.table, ∃ x y, k.Joins j x y row
  keyed : ∀ st (j : s.Linkage), (k.rows st j.table).Pairwise fun a b =>
    ¬(k.cells.same j.ownerKey.type (a "owner") (b "owner") = true ∧
      k.cells.same j.targetKey.type (a "has") (b "has") = true)
  referring : ∀ st (j : s.Linkage), ∀ row ∈ k.rows st j.table, ∃ target ∈ k.rows st j.target.name,
    k.cells.same j.targetKey.type (row "has") (target j.targetKey.name) = true
  look : ∀ (j : s.Linkage) v u, j.Admits v u → ∀ ps st reply,
    Request.Sent d (.select (j.looking v u)) ps →
      (server.answer (.select (j.looking v u)) ps st).1 = .ok reply →
        reply.rows.Perm (((j.looking v u).rows (k.rows st)).map fun row => row.map k.shown)
  insert : ∀ (j : s.Linkage) v u, j.Admits v u → ∀ ps st st' reply,
    Request.Sent d (.insert (j.adding v u)) ps →
      server.answer (.insert (j.adding v u)) ps st = (.ok reply, st') → ∃ base,
        Exchanged j.table [] [Assignment.write (j.adding v u).assignments base] (k.rows st)
          (k.rows st')
  delete : ∀ (j : s.Linkage) v u, j.Admits v u → ∀ ps st st' reply,
    Request.Sent d (.delete (j.removing v u)) ps →
      server.answer (.delete (j.removing v u)) ps st = (.ok reply, st') →
        (k.rows st' j.table).Perm ((k.rows st j.table).filter fun row =>
          !(j.pair v u).reaches (k.rows st) j.table row) ∧
        (∀ other ≠ j.table, k.rows st' other = k.rows st other) ∧
        reply.changed = (k.rows st j.table).countP ((j.pair v u).reaches (k.rows st) j.table)
  /-- The targets come in the order of their keys. -/
  follow : ∀ (j : s.Linkage) v, j.ownerKey.type.admits v = true → v ≠ .null → ∀ ps st reply,
    Request.Sent d (.select (Query.following j v)) ps →
      (server.answer (.select (Query.following j v)) ps st).1 = .ok reply →
      ∃ scs : List (Sql.Scope k.cells), scs.Perm ((Query.following j v).scopes (k.rows st)) ∧
        (scs.Pairwise fun a b => k.cells.test .gt j.targetKey.type j.targetKey.type
          (a.read j.targetColumn) (b.read j.targetColumn) ≠ some true) ∧
        reply.rows = scs.map fun sc => (Query.following j v).outputs.map fun o =>
          k.shown (sc.read o.column)

namespace Database

variable {σ : Type} {server : Server σ} {d : Dialect} {s : Schema} (k : Database server d s)

/-! ## Pairs -/

/-- A cell is read as a value that is the same as another. -/
def HasValue (t : LogicalType) (v : Value) (cell : Option k.cells.Cell) : Prop :=
  ∃ x, Sql.Binding.read d t (k.shown cell) = .ok x ∧ x ≠ .null ∧ x.same v = true

/-- A row of the join table links the owner of a key to the target of a key. -/
def Pairs (j : s.Linkage) (v u : Value) (row : Sql.Row k.cells) : Prop :=
  k.HasValue j.ownerKey.type v (row "owner") ∧ k.HasValue j.targetKey.type u (row "has")

/-- An owner and a target, by their keys, are linked. -/
def Linked (j : s.Linkage) (v u : Value) (rows : Sql.Contents k.cells) : Prop :=
  ∃ row ∈ rows j.table, k.Pairs j v u row

/-- A pair is put into the set of a relationship, which has it then if it has not had it before. No
other set has changed, nor has any other table. -/
structure Adds (j : s.Linkage) (v u : Value) (added : Bool) (before after : Sql.Contents k.cells) :
    Prop where
  answer : added = true ↔ ¬k.Linked j v u before
  linked : ∀ (i : s.Linkage) x y, k.Linked i x y after ↔
    k.Linked i x y before ∨ i = j ∧ v.same x = true ∧ u.same y = true
  rows : ∃ new, new.length = (if added then 1 else 0) ∧ (∀ row ∈ new, k.Pairs j v u row) ∧
    Exchanged j.table [] new before after

/-- A pair is taken out of the set of a relationship, if it has it. No other set has changed, nor has
any other table. -/
structure Drops (j : s.Linkage) (v u : Value) (dropped : Bool) (before after : Sql.Contents k.cells) :
    Prop where
  answer : dropped = true ↔ k.Linked j v u before
  linked : ∀ (i : s.Linkage) x y, k.Linked i x y after ↔
    k.Linked i x y before ∧ ¬(i = j ∧ v.same x = true ∧ u.same y = true)
  rows : ∃ old, old.length = (if dropped then 1 else 0) ∧ (∀ row ∈ old, k.Pairs j v u row) ∧
    Exchanged j.table old [] before after

/-- One key stands before another. -/
def Before (t : LogicalType) (v w : Value) : Prop :=
  k.cells.test .lt t t (k.cells.literal t v) (k.cells.literal t w) = some true

/-- Handles of exactly the targets that an owner is linked to, each once, in the order of their
keys. -/
structure Targets (j : s.Linkage) (v : Value) (rows : Sql.Contents k.cells) (found : List Handle) :
    Prop where
  present : ∀ g ∈ found, k.Finds j.target g.key rows (some g)
  linked : ∀ u, (∃ g ∈ found, g.key.same u = true) ↔ k.Linked j v u rows
  sorted : found.Pairwise fun a b => k.Before j.targetKey.type a.key b.key

variable {k} {st : σ} {i j : s.Linkage} {e : Entity} {key : Field} {t : LogicalType}
  {v u x y : Value} {row : Sql.Row k.cells} {cell : Option k.cells.Cell}
  {before after : Sql.Contents k.cells}

theorem hasValue_iff (ht : t ≠ .json) (hx : t.admits x = true) (hn : x ≠ .null)
    (hcell : cell = k.cells.literal t x) : k.HasValue t v cell ↔ x.same v = true := by
  have hread := k.read_literal hx ht
  rw [← hcell] at hread
  constructor
  · rintro ⟨x', hread', -, hsame⟩
    cases hread.symm.trans hread'
    exact hsame
  · exact fun hsame => ⟨x, hread, hn, hsame⟩

theorem HasValue.of_same (h : k.HasValue t v cell) (hsame : v.same x = true) :
    k.HasValue t x cell := by
  obtain ⟨a, hread, hn, ha⟩ := h
  exact ⟨a, hread, hn, Value.same_trans _ _ _ ha hsame⟩

theorem HasValue.same (hv : v.isSingle = true) (h : k.HasValue t v cell)
    (hx : k.HasValue t x cell) : v.same x = true := by
  obtain ⟨a, hread, -, ha⟩ := h
  obtain ⟨a', hread', -, hx⟩ := hx
  cases hread.symm.trans hread'
  have hback := Value.same_symm_single ((Value.isSingle_of_same ha).trans hv) ha
  exact Value.same_trans _ _ _ hback hx

theorem hasKey_iff_hasValue (hk : e.key? = some key) :
    k.HasKey e v row ↔ k.HasValue key.type v (row key.name) := by
  constructor
  · rintro ⟨key', x, hk', hx⟩
    cases hk.symm.trans hk'
    exact ⟨x, hx⟩
  · exact fun ⟨x, hx⟩ => ⟨key, x, hk, hx⟩

theorem HasKey.same (hk : e.key? = some key) (hv : v.isSingle = true) (h : k.HasKey e v row)
    (h' : k.HasKey e x row) : v.same x = true :=
  ((hasKey_iff_hasValue hk).1 h).same hv ((hasKey_iff_hasValue hk).1 h')

theorem HasKey.isSingle (he : e ∈ s.entities) (hsound : e.Sound) (hk : e.key? = some key)
    (hrow : row ∈ k.rows st e.name) (h : k.HasKey e v row) : v.isSingle = true := by
  obtain ⟨u, hu, hn, hliteral⟩ := k.exists_key he hsound hk hrow
  have hsame := (k.hasKey_iff hsound hk hu hn hliteral).1 h
  exact (Value.isSingle_of_same hsame).symm.trans
    (LogicalType.isSingle_of_admits hu (hsound.key_comparable hk))

section Sound

variable (hs : s.Sound)

include hs

theorem Joins.pairs_iff (hrow : k.Joins j x y row) :
    k.Pairs j v u row ↔ x.same v = true ∧ y.same u = true := by
  obtain ⟨howner, htarget⟩ := j.comparable hs
  rw [Pairs, hasValue_iff howner hrow.admits.owner hrow.admits.owner_ne hrow.owner,
    hasValue_iff htarget hrow.admits.target hrow.admits.target_ne hrow.has]

/-- The database compares the keys of a row as the values that they are. -/
theorem Joins.same_iff (hrow : k.Joins j x y row) (h : j.Admits v u) :
    (k.cells.same j.ownerKey.type (row "owner") (k.cells.literal j.ownerKey.type v) = true ∧
      k.cells.same j.targetKey.type (row "has") (k.cells.literal j.targetKey.type u) = true) ↔
        k.Pairs j v u row := by
  have hadmits := hrow.admits
  rw [hrow.pairs_iff hs, hrow.owner, hrow.has,
    k.same _ j.owner_mem _ j.ownerKey_eq _ _ hadmits.owner h.owner hadmits.owner_ne h.owner_ne,
    k.same _ j.target_mem _ j.targetKey_eq _ _ hadmits.target h.target hadmits.target_ne h.target_ne]

/-- What else a row with a pair links. -/
theorem Pairs.same_iff (h : j.Admits v u) (hpair : k.Pairs j v u row) :
    k.Pairs j x y row ↔ v.same x = true ∧ u.same y = true := by
  obtain ⟨hv, hu⟩ := h.single hs
  constructor
  · exact fun hother => ⟨hpair.1.same hv hother.1, hpair.2.same hu hother.2⟩
  · exact fun ⟨hx, hy⟩ => ⟨hpair.1.of_same hx, hpair.2.of_same hy⟩

theorem Pairs.of_same (h : j.Admits v u) (hpair : k.Pairs j x y row) (hx : v.same x = true)
    (hy : u.same y = true) : k.Pairs j v u row := by
  obtain ⟨hv, hu⟩ := h.single hs
  exact ⟨hpair.1.of_same (Value.same_symm_single hv hx),
    hpair.2.of_same (Value.same_symm_single hu hy)⟩

/-! ## Effects on the sets -/

section Effects

variable {old new : List (Sql.Row k.cells)}

theorem linked_of_ne (hex : Exchanged j.table old new before after) (hne : i ≠ j) :
    k.Linked i x y after ↔ k.Linked i x y before := by
  rw [Linked, Linked, hex.others _ fun htable => hne (Schema.Linkage.eq_of_table hs htable)]

theorem adds_of_linked (h : j.Admits v u) (hlinked : k.Linked j v u before) :
    k.Adds j v u false before before where
  answer := by simp [hlinked]
  linked i x y := by
    refine ⟨Or.inl, fun hor => hor.elim id ?_⟩
    rintro ⟨rfl, hx, hy⟩
    obtain ⟨row, hrow, hpair⟩ := hlinked
    exact ⟨row, hrow, (hpair.same_iff hs h).2 ⟨hx, hy⟩⟩
  rows := ⟨[], rfl, List.forall_mem_nil _, ⟨_, .refl _, .refl _⟩, fun _ _ => rfl⟩

theorem adds_of_inserted {base : Sql.Row k.cells} (h : j.Admits v u)
    (hnot : ¬k.Linked j v u before)
    (hex : Exchanged j.table [] [Assignment.write (j.adding v u).assignments base] before after) :
    k.Adds j v u true before after := by
  have hjoins : k.Joins j v u (Assignment.write (j.adding v u).assignments base) :=
    ⟨h, rfl, rfl⟩
  obtain ⟨howner, htarget⟩ := j.comparable hs
  have hpair : k.Pairs j v u (Assignment.write (j.adding v u).assignments base) :=
    (hjoins.pairs_iff hs).2 ⟨LogicalType.same_self h.owner, LogicalType.same_self h.target⟩
  refine ⟨by simp [hnot], fun i x y => ?_, _, rfl, List.forall_mem_singleton.2 hpair, hex⟩
  by_cases hij : i = j
  · subst hij
    obtain ⟨⟨others, hbefore, hafter⟩, -⟩ := hex
    simp only [Linked, hbefore.mem_iff, hafter.mem_iff, List.nil_append, List.singleton_append,
      List.mem_cons, exists_eq_or_imp, hpair.same_iff hs h, true_and]
    exact or_comm
  · rw [linked_of_ne hs hex hij, or_iff_left fun hpair => hij hpair.1]

theorem drops_of_not_linked (h : j.Admits v u) (hnot : ¬k.Linked j v u before)
    (hex : Exchanged j.table [] [] before after) : k.Drops j v u false before after := by
  refine ⟨by simp [hnot], fun i x y => ?_, [], rfl, List.forall_mem_nil _, hex⟩
  by_cases hij : i = j
  · subst hij
    obtain ⟨⟨others, hbefore, hafter⟩, -⟩ := hex
    simp only [Linked, hbefore.mem_iff, hafter.mem_iff, List.nil_append, true_and] at hnot ⊢
    refine ⟨fun ⟨row, hrow, hpair⟩ => ⟨⟨row, hrow, hpair⟩, fun ⟨hx, hy⟩ => hnot ?_⟩, And.left⟩
    exact ⟨row, hrow, hpair.of_same hs h hx hy⟩
  · rw [linked_of_ne hs hex hij, and_iff_left fun hpair => hij hpair.1]

theorem drops_of_deleted (h : j.Admits v u) (hpair : k.Pairs j v u row)
    (hex : Exchanged j.table [row] [] before after)
    (hnot : ∀ other ∈ after j.table, ¬k.Pairs j v u other) : k.Drops j v u true before after := by
  obtain ⟨⟨others, hbefore, hafter⟩, hother⟩ := id hex
  have hin : row ∈ before j.table := hbefore.mem_iff.2 List.mem_cons_self
  refine ⟨by simpa using ⟨row, hin, hpair⟩, fun i x y => ?_, [row], rfl,
    List.forall_mem_singleton.2 hpair, hex⟩
  by_cases hij : i = j
  · subst hij
    simp only [Linked, hbefore.mem_iff, hafter.mem_iff, List.nil_append, List.singleton_append,
      List.mem_cons, exists_eq_or_imp, hpair.same_iff hs h, true_and] at hnot ⊢
    refine ⟨fun ⟨other, hin, hother⟩ => ⟨Or.inr ⟨other, hin, hother⟩, fun ⟨hx, hy⟩ => ?_⟩,
      fun ⟨hor, hne⟩ => hor.resolve_left hne⟩
    exact hnot other hin (hother.of_same hs h hx hy)
  · rw [linked_of_ne hs hex hij, and_iff_left fun hpair => hij hpair.1]

end Effects

namespace KeepsLinks

variable (hk : k.KeepsLinks) (h : j.Admits v u)

include hk h

/-- The condition for a pair reaches the rows that have it. -/
theorem reaches_iff (hrow : row ∈ k.rows st j.table) :
    (j.pair v u).reaches (k.rows st) j.table row = true ↔ k.Pairs j v u row := by
  obtain ⟨x, y, hjoins⟩ := hk.typed st j row hrow
  rw [j.reaches_pair hs h, hjoins.same_iff hs h]

omit h in
theorem same_of_pairs (h : j.Admits v u) {other : Sql.Row k.cells} (hrow : row ∈ k.rows st j.table)
    (hother : other ∈ k.rows st j.table) (hpair : k.Pairs j v u row)
    (hpair' : k.Pairs j v u other) :
    k.cells.same j.ownerKey.type (row "owner") (other "owner") = true ∧
      k.cells.same j.targetKey.type (row "has") (other "has") = true := by
  obtain ⟨x, y, hjoins⟩ := hk.typed st j row hrow
  obtain ⟨x', y', hjoins'⟩ := hk.typed st j other hother
  obtain ⟨howner, hhas⟩ := (hjoins.same_iff hs h).2 hpair
  obtain ⟨howner', hhas'⟩ := (hjoins'.same_iff hs h).2 hpair'
  exact ⟨Sql.Cells.same_trans howner (by rw [Sql.Cells.same_comm, howner']),
    Sql.Cells.same_trans hhas (by rw [Sql.Cells.same_comm, hhas'])⟩

/-- A pair has no row, or exactly one. -/
theorem none_or_row (st : σ) :
    (∀ row ∈ k.rows st j.table, (j.pair v u).reaches (k.rows st) j.table row = false) ∨
      ∃ row others, (k.rows st j.table).Perm (row :: others) ∧
        (j.pair v u).reaches (k.rows st) j.table row = true ∧
        ∀ other ∈ others, (j.pair v u).reaches (k.rows st) j.table other = false := by
  refine Sql.none_or_single (List.Pairwise.and_mem.1 (hk.keyed st j)) fun a b ⟨ha, hb, hne⟩ hpa => ?_
  refine Bool.eq_false_iff.2 fun hpb => hne ?_
  exact same_of_pairs hs hk h ha hb ((hk.reaches_iff hs h ha).1 hpa) ((hk.reaches_iff hs h hb).1 hpb)

theorem linked_iff (st : σ) : k.Linked j v u (k.rows st) ↔
    ∃ row ∈ k.rows st j.table, (j.pair v u).reaches (k.rows st) j.table row = true := by
  constructor
  · exact fun ⟨row, hrow, hpair⟩ => ⟨row, hrow, (hk.reaches_iff hs h hrow).2 hpair⟩
  · exact fun ⟨row, hrow, hreaches⟩ => ⟨row, hrow, (hk.reaches_iff hs h hrow).1 hreaches⟩

/-! ## Answers -/

omit h in
theorem looked (h : j.Admits v u) {ps : List (String × Sql.Bound)} {reply : Reply}
    (hsent : Request.Sent d (.select (j.looking v u)) ps)
    (hreply : (server.answer (.select (j.looking v u)) ps st).1 = .ok reply) :
    reply.rows = [] ↔ ¬k.Linked j v u (k.rows st) := by
  have hperm := hk.look j v u h ps st reply hsent hreply
  have houtputs : ∀ o ∈ [(⟨j.ownerColumn, none⟩ : Sql.Output)], o.column.source = .table j.table :=
    List.forall_mem_singleton.2 rfl
  have hrows := Sql.rows_single (k.rows st) j.table houtputs (j.pair v u)
  rw [show (j.looking v u).rows (k.rows st) = _ from hrows] at hperm
  rw [linked_iff hs hk h, ← List.length_eq_zero_iff, hperm.length_eq, List.length_map,
    List.length_map, List.length_eq_zero_iff, List.filter_eq_nil_iff]
  simp only [not_exists, not_and]

theorem dropped {ps : List (String × Sql.Bound)} {st' : σ} {reply : Reply}
    (hsent : Request.Sent d (.delete (j.removing v u)) ps)
    (hreply : server.answer (.delete (j.removing v u)) ps st = (.ok reply, st')) :
    k.Drops j v u (decide (0 < reply.changed)) (k.rows st) (k.rows st') := by
  obtain ⟨hafter, hothers, hchanged⟩ := hk.delete j v u h ps st st' reply hsent hreply
  rcases hk.none_or_row hs h st with hnone | ⟨row, others, hperm, hreaches, hrest⟩
  · have hcount : reply.changed = 0 := by
      rw [hchanged, List.countP_eq_zero.2 fun row hrow => by simp [hnone row hrow]]
      rfl
    have hall : (k.rows st j.table).filter (fun row =>
        !(j.pair v u).reaches (k.rows st) j.table row) = k.rows st j.table :=
      List.filter_eq_self.2 fun row hrow => by rw [hnone row hrow]; rfl
    rw [hall] at hafter
    rw [hcount]
    refine drops_of_not_linked hs h (fun hlinked => ?_) ⟨⟨_, .refl _, hafter⟩, hothers⟩
    obtain ⟨row, hrow, hreaches⟩ := (hk.linked_iff hs h st).1 hlinked
    rw [hnone row hrow] at hreaches
    cases hreaches
  · have hcount : reply.changed = 1 := by
      rw [hchanged, Sql.countP_single hperm hreaches hrest]
      rfl
    have hkept := hafter.trans (Sql.filter_single hperm hreaches hrest)
    rw [hcount]
    refine drops_of_deleted hs h ((hk.reaches_iff hs h (hperm.mem_iff.2 List.mem_cons_self)).1
      hreaches) ⟨⟨others, hperm, hkept⟩, hothers⟩ fun other hother hpair => ?_
    have hin := hkept.mem_iff.1 hother
    have hyes := (hk.reaches_iff hs h (hperm.mem_iff.2 (List.mem_cons_of_mem row hin))).2 hpair
    rw [hrest other hin] at hyes
    cases hyes

end KeepsLinks

omit hs in
/-- The key of a handle that shows a row is the key of the row. -/
theorem Shows.key_cell (he : e ∈ s.entities) (hsound : e.Sound) (hkey : e.key? = some key)
    (hrow : row ∈ k.rows st e.name) {g : Handle} (hg : g.entity = e)
    (hshows : k.Shows e row g.values) :
    key.type.admits g.key = true ∧ g.key ≠ .null ∧
      row key.name = k.cells.literal key.type g.key := by
  obtain ⟨u, hu, hn, hliteral⟩ := k.exists_key he hsound hkey hrow
  obtain ⟨v, hv, hread⟩ := hshows _ _ (hsound.columnType_key hkey)
  rw [hliteral, k.read_literal hu (hsound.key_comparable hkey)] at hread
  cases hread
  have hsame : g.key = u := by
    rw [Handle.key, Handle.keyName_eq (hg ▸ hkey), Handle.value?, hv, Option.getD_some]
  rw [hsame]
  exact ⟨hu, hn, hliteral⟩

/-- A handle shows the target that a selection of targets stands at. -/
def Presents (k : Database server d s) (j : s.Linkage) (v : Value) (rows : Sql.Contents k.cells)
    (sc : Sql.Scope k.cells) (g : Handle) : Prop :=
  ∃ row ∈ rows j.target.name, ∃ link ∈ rows j.table, Query.links j v row link = true ∧
    Query.beside j row link = sc ∧ g.Begins j.target .persisted ∧ k.Shows j.target row g.values

theorem exists_presented (v : Value) {sc : Sql.Scope k.cells}
    (hsc : sc ∈ (Query.following j v).scopes (k.rows st)) :
    ∃ values g, Query.Compiled.read d ⟨Query.following j v, j.target.columnNames⟩
        ((Query.following j v).outputs.map fun o => k.shown (sc.read o.column)) = .ok values ∧
      Handle.make j.target values .persisted = .ok g ∧ k.Presents j v (k.rows st) sc g := by
  obtain ⟨row, hrow, link, hlink, hlinks, rfl⟩ := (Query.mem_scopes_following hs j v).1 hsc
  have hsound := hs.entities _ j.target_mem
  obtain ⟨values, hread, hnames, hshows⟩ := k.read_lookup hs j.target_mem hrow "" .text .null
  obtain ⟨g, hmake, hvalues⟩ := Handle.exists_make .persisted (hnames ▸ hsound.columnNames)
    fun c (hc : c ∈ values.map (·.1)) => (hnames ▸ hc : c ∈ j.target.columnNames)
  have hcells : ((Query.following j v).outputs.map fun o =>
      k.shown ((Query.beside j row link).read o.column)) =
        j.target.columnNames.map fun n => k.shown (row n) := by
    rw [Query.following, Query.ownColumns, List.map_map, List.map_map]
    exact List.map_congr_left fun n _ => congrArg k.shown (Query.read_beside hs j row link n _)
  refine ⟨values, g, ?_, hmake, row, hrow, link, hlink, hlinks, rfl, Handle.begins_make hmake,
    fun column t ht => ?_⟩
  · rw [hcells]
    exact hread
  · obtain ⟨x, hx, hshown⟩ := hshows column t ht
    exact ⟨x, hvalues column x hx, hshown⟩

omit hs in
theorem before_of_sorted {a b : Option k.cells.Cell} (ha : a ≠ none) (hb : b ≠ none)
    (hle : k.cells.test .gt t t a b ≠ some true) (hne : k.cells.same t a b = false) :
    k.cells.test .lt t t a b = some true := by
  obtain ⟨x, rfl⟩ := Option.ne_none_iff_exists'.1 ha
  obtain ⟨y, rfl⟩ := Option.ne_none_iff_exists'.1 hb
  simp only [Sql.Cells.same, Sql.Cells.test, Comparison.holds, Option.some.injEq, ne_eq,
    decide_eq_true_eq, decide_eq_false_iff_not] at hle hne ⊢
  cases hc : k.cells.compare t t x y with
  | lt => rfl
  | eq => exact absurd hc hne
  | gt => exact absurd hc hle

section Presented

variable {sc : Sql.Scope k.cells} {g : Handle}

/-- What a handle that was presented stands for. -/
theorem Presents.target (hp : k.Presents j v (k.rows st) sc g) :
    j.targetKey.type.admits g.key = true ∧ g.key ≠ .null ∧
      sc.read j.targetColumn = k.cells.literal j.targetKey.type g.key ∧
      k.Finds j.target g.key (k.rows st) (some g) := by
  obtain ⟨row, hrow, link, hlink, hlinks, rfl, hbegins, hshows⟩ := hp
  have hsound := hs.entities _ j.target_mem
  obtain ⟨hadmits, hn, hliteral⟩ :=
    hshows.key_cell j.target_mem hsound j.targetKey_eq hrow hbegins.entity
  refine ⟨hadmits, hn, (Query.read_beside hs j row link _ _).trans hliteral, hbegins, row, hrow, ?_,
    hshows⟩
  exact (k.hasKey_iff hsound j.targetKey_eq hadmits hn hliteral).2 (LogicalType.same_self hadmits)

variable (hk : k.KeepsLinks) (hv : j.ownerKey.type.admits v = true) (hn : v ≠ .null)

include hk hv hn

theorem Presents.linked (hp : k.Presents j v (k.rows st) sc g) :
    k.Linked j v g.key (k.rows st) := by
  obtain ⟨hadmits, hgn, -, -⟩ := hp.target hs
  obtain ⟨row, hrow, link, hlink, hlinks, rfl, hbegins, hshows⟩ := hp
  obtain ⟨x, y, hjoins⟩ := hk.typed st j link hlink
  obtain ⟨-, -, hliteral⟩ := hshows.key_cell j.target_mem (hs.entities _ j.target_mem)
    j.targetKey_eq hrow hbegins.entity
  rw [Query.links, hliteral, Bool.and_eq_true, and_comm] at hlinks
  exact ⟨link, hlink, (hjoins.same_iff hs ⟨hv, hadmits, hn, hgn⟩).1 hlinks⟩

/-- Every target that is linked is presented. -/
theorem exists_scope (hlinked : k.Linked j v u (k.rows st)) :
    ∃ sc ∈ (Query.following j v).scopes (k.rows st), ∀ g, k.Presents j v (k.rows st) sc g →
      g.key.same u = true := by
  obtain ⟨link, hlink, hpair⟩ := hlinked
  obtain ⟨x, y, hjoins⟩ := hk.typed st j link hlink
  obtain ⟨hx, hy⟩ := (hjoins.pairs_iff hs).1 hpair
  obtain ⟨row, hrow, hsame⟩ := hk.referring st j link hlink
  obtain ⟨z, hz, hzn, hliteral⟩ :=
    k.exists_key j.target_mem (hs.entities _ j.target_mem) j.targetKey_eq hrow
  have hadmits := hjoins.admits
  have hyz : y.same z = true := by
    rw [hjoins.has, hliteral, k.same _ j.target_mem _ j.targetKey_eq _ _ hadmits.target hz
      hadmits.target_ne hzn] at hsame
    exact hsame
  have hlinks : Query.links j v row link = true := by
    rw [Query.links, hliteral, Bool.and_eq_true, and_comm]
    refine (hjoins.same_iff hs ⟨hv, hz, hn, hzn⟩).2 ((hjoins.pairs_iff hs).2 ⟨hx, hyz⟩)
  refine ⟨_, (Query.mem_scopes_following hs j v).2 ⟨row, hrow, link, hlink, hlinks, rfl⟩,
    fun g hg => ?_⟩
  obtain ⟨hgadmits, hgn, hread, -⟩ := hg.target hs
  have hzg : z.same g.key = true := by
    rw [Schema.Linkage.targetColumn, Query.read_beside hs, hliteral] at hread
    rw [← k.same _ j.target_mem _ j.targetKey_eq _ _ hz hgadmits hzn hgn, ← hread,
      k.same _ j.target_mem _ j.targetKey_eq _ _ hz hz hzn hzn]
    exact LogicalType.same_self hz
  have hyg := Value.same_trans _ _ _ hyz hzg
  exact Value.same_trans _ _ _ (Value.same_symm_single (hadmits.single hs).2 hyg) hy

/-- The answer to the selection of an owner's targets is handles of exactly these. -/
theorem KeepsLinks.targets {ps : List (String × Sql.Bound)} {reply : Reply}
    (hsent : Request.Sent d (.select (Query.following j v)) ps)
    (hreply : (server.answer (.select (Query.following j v)) ps st).1 = .ok reply) :
    ∃ values found,
      reply.rows.mapM (Query.Compiled.read d ⟨Query.following j v, j.target.columnNames⟩) =
        .ok values ∧
      values.mapM (fun values => Handle.make j.target values .persisted) = .ok found ∧
      k.Targets j v (k.rows st) found := by
  obtain ⟨scs, hperm, hsorted, hrows⟩ := hk.follow j v hv hn ps st reply hsent hreply
  have hapart := (Query.pairwise_following hs j v
    (k.keyed st _ j.target_mem _ j.targetKey_eq).2 (hk.keyed st j)).perm hperm.symm
      fun h => by rw [Sql.Cells.same_comm, h]
  have hpresents := fun sc (hsc : sc ∈ scs) => exists_presented hs v (hperm.mem_iff.1 hsc)
  have : Nonempty Handle := ⟨.blank j.target .persisted⟩
  choose! values handle hread hmake hpresents using hpresents
  refine ⟨scs.map values, scs.map handle, ?_, ?_, ?_, fun u => ⟨?_, fun hlinked => ?_⟩, ?_⟩
  · rw [hrows, List.mapM_map]
    exact Outcome.mapM_of_ok hread
  · rw [List.mapM_map]
    exact Outcome.mapM_of_ok hmake
  · intro g hg
    obtain ⟨sc, hsc, rfl⟩ := List.mem_map.1 hg
    exact ((hpresents sc hsc).target hs).2.2.2
  · rintro ⟨g, hg, hsame⟩
    obtain ⟨sc, hsc, rfl⟩ := List.mem_map.1 hg
    obtain ⟨link, hlink, hpair⟩ := (hpresents sc hsc).linked hs hk hv hn
    exact ⟨link, hlink, hpair.1, hpair.2.of_same hsame⟩
  · obtain ⟨sc, hsc, hkey⟩ := exists_scope hs hk hv hn hlinked
    have hin := hperm.mem_iff.2 hsc
    exact ⟨handle sc, List.mem_map_of_mem hin, hkey _ (hpresents sc hin)⟩
  · rw [List.pairwise_map]
    refine (hsorted.and hapart).imp_of_mem fun {a b} ha hb ⟨hle, hne⟩ => ?_
    obtain ⟨hadmits, han, hreada, -⟩ := (hpresents a ha).target hs
    obtain ⟨hadmits', hbn, hreadb, -⟩ := (hpresents b hb).target hs
    rw [Before, ← hreada, ← hreadb]
    refine before_of_sorted (fun hnone => ?_) (fun hnone => ?_) hle hne
    · rw [hreada, k.literal_eq_none hadmits] at hnone
      exact han hnone.1
    · rw [hreadb, k.literal_eq_none hadmits'] at hnone
      exact hbn hnone.1

end Presented

end Sound

end Database

end SchemaLedger
