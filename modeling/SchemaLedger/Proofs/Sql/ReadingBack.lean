import SchemaLedger.Proofs.Entries
import SchemaLedger.Proofs.Sql.Affinity
import SchemaLedger.Session.Record

set_option autoImplicit false

/-!
# Reading back what was stored

A value is bound for a column of SQLite, the column keeps it, and a query reads it again. What was bound
is always read back. What the column keeps of it is another matter for a document that is a bare
number: its column has the affinity of numbers.
-/
namespace SchemaLedger

open Sql (Reals isInt64)

namespace LogicalType

/-- The values that SQLite is asked to hold for a type. Documents are finite. -/
def storable : LogicalType → Value → Bool
  | .json, v => Json.isFiniteDocument v && v.wellFormed
  | _, .null => true
  | .bool, .bool _ => true
  | .int, .int n | .bigint, .int n => isInt64 n
  | .real, .float x => x.isFinite
  | .text, .text _ => true
  | .date, .date _ => true
  | .timestamp, .timestamp _ => true
  | .blob, .bytes _ => true
  | .uuid, .uuid _ => true
  | _, _ => false

/-- A value is read back as an equal one: the very same, but for the sign of zero and for the numbers
and the order of names in a document. -/
def Preserves (t : LogicalType) (v x : Value) : Prop :=
  if t = .real ∨ t = .json then x.same v = true else x = v

theorem admitted_of_storable {t : LogicalType} {v : Value} (h : t.storable v = true)
    (ht : t ≠ .json) : t.Admitted v := by
  cases t <;> cases v <;> first | exact absurd rfl ht | constructor | cases h

end LogicalType

namespace Sql

/-- Whether SQLite reads a number in a text so well that it keeps an equal one. -/
def Reals.Keeps (r : Reals) : Value → Prop
  | .int n => isInt64 n = true ∨ (Value.float (r.ofText (toString n))).same (.int n) = true
  | .float x => (Value.float (r.ofText (Json.number .spaced x))).same (.float x) = true
  | _ => True

namespace Binding

variable {t : LogicalType} {v y : Value} (r : Reals)

/-- A column keeps each cell that is given for a value of its type, but for reals and documents. -/
theorem keep_self (h : t.Admitted v) (hr : t ≠ .real) (hj : t ≠ .json)
    (hb : bind? .sqlite t v = some (.plain y)) : Affinity.keep r (Affinity.ofType t) y = y := by
  have hnumeric : ∀ s : String, numeral? s = none → Affinity.keep r .numeric (.text s) = .text s := by
    intro s hs
    rw [Affinity.keep, Affinity.number, hs]
  rw [Affinity.ofType_eq]
  cases h with
  | null t => cases t <;> cases hb <;> rfl
  | bool b => cases b <;> cases hb <;> rfl
  | real x => exact absurd rfl hr
  | date d =>
    cases hb
    exact hnumeric _ (numeral?_of_date (d := d) (List.append_nil _).symm)
  | timestamp t =>
    cases hb
    have hfront : t.stored.toList = t.date.iso.toList ++ (" " ++ t.clock.iso true).toList := by
      rw [Timestamp.stored, String.append_assoc, String.toList_append]
    exact hnumeric _ (numeral?_of_date hfront)
  | _ => cases hb; rfl

/-- The zeros are equal. -/
theorem same_real {x : Double} (hx : x.isFinite = true) :
    (Value.float (if x.isZero then .zero else x)).same (.float x) = true := by
  refine (Value.same_single rfl rfl).2 ?_
  split
  case isFalse => exact ⟨rfl, by cases x <;> first | rfl | cases hx⟩
  case isTrue hzero =>
    cases x with
    | finite negative m =>
      have hint : (Double.finite negative m).toInt? = some 0 := by
        rw [Double.toInt?, Magnitude.toNat?_of_isZero hzero]
        cases negative <;> rfl
      exact ⟨((Value.leveled_float_eq_int _ 0).2 rfl).trans
        ((Value.leveled_float_eq_int _ 0).2 hint).symm, rfl⟩
    | _ => cases hx

theorem preserves_self (h : t.storable v = true) (hj : t ≠ .json) : t.Preserves v v := by
  unfold LogicalType.Preserves
  split
  case isFalse => rfl
  case isTrue ht =>
    cases LogicalType.admitted_of_storable h hj with
    | real x =>
      have hx : x.isFinite = true := h
      exact (Value.same_single rfl rfl).2 ⟨rfl, by cases x <;> first | rfl | cases hx⟩
    | null => rfl
    | _ => simp at ht

/-- What a column keeps of a value that is no document is read as that value. -/
theorem read_keep (h : t.storable v = true) (ht : t ≠ .json) :
    ∃ y, bind? .sqlite t v = some (.plain y) ∧ read .sqlite t y = .ok v ∧
      ∃ x, read .sqlite t (Affinity.keep r (Affinity.ofType t) y) = .ok x ∧ t.Preserves v x := by
  have hadmitted := LogicalType.admitted_of_storable h ht
  obtain ⟨y, hy, hread⟩ := bind?_of_admitted hadmitted ht .sqlite
  refine ⟨y, hy, hread, ?_⟩
  by_cases hreal : t = .real
  · subst hreal
    rw [Affinity.ofType_eq]
    cases hadmitted with
    | null =>
      cases hy
      exact ⟨.null, rfl, rfl⟩
    | real x =>
      cases hy
      exact ⟨_, rfl, same_real h⟩
  · exact ⟨v, by rw [keep_self r hadmitted hreal ht hy, hread], (if_neg (not_or_intro hreal ht)).mpr rfl⟩

/-- A document is kept, but for a number, of which an equal one is kept exactly if it can be. -/
theorem read_keep_document (h : LogicalType.json.storable v = true) :
    ∃ y, bind? .sqlite .json v = some (.plain y) ∧
      (∃ x, read .sqlite .json y = .ok x ∧ LogicalType.json.Preserves v x) ∧
      ∃ x, read .sqlite .json (Affinity.keep r (Affinity.ofType .json) y) = .ok x ∧
        (LogicalType.json.Preserves v x ↔ r.Keeps v) := by
  obtain ⟨hdocument, hread, hself⟩ := document_spaced (t := .json) h rfl
  have htext : read .sqlite .json (.text (Json.render .spaced v)) = .ok v :=
    congrArg (Except.mapError fun _ => _) hread
  refine ⟨.text (Json.render .spaced v), by rw [bind?, cell?, if_pos hdocument]; rfl,
    ⟨v, htext, hself⟩, ?_⟩
  rw [Affinity.ofType_eq, Affinity.keep]
  have hother (hi : ∀ n, v ≠ .int n) (hf : ∀ x, v ≠ .float x) (hk : r.Keeps v) : ∃ x,
      read .sqlite .json (Affinity.number r (Json.render .spaced v)) = .ok x ∧
        (LogicalType.json.Preserves v x ↔ r.Keeps v) := by
    rw [Affinity.number, numeral?_render hdocument hi hf]
    exact ⟨v, htext, iff_of_true hself hk⟩
  cases v with
  | int n =>
    have hnumeral : numeral? (toString n) = some (.integer n) := by
      have hnumber := Json.readNumber?_int n Json.ends_nil
      rw [List.append_nil] at hnumber
      obtain ⟨m, hm, hs⟩ | ⟨x, hx, -⟩ := numeral?_of_readNumber? hnumber
      · cases hm
        exact hs
      · cases hx
    change ∃ x, read .sqlite .json (Affinity.number r (toString n)) = .ok x ∧ _
    rw [Affinity.number, hnumeral]
    dsimp only
    split
    case isTrue hn => exact ⟨.int n, rfl, iff_of_true hself (Or.inl hn)⟩
    case isFalse hn =>
      refine ⟨_, Affinity.read_settle _, ?_⟩
      rw [LogicalType.Preserves, if_pos (Or.inr rfl), Affinity.same_settle _ rfl]
      exact (or_iff_right hn).symm
  | float x =>
    have hnumeral : numeral? (Json.number .spaced x) = some .real := by
      cases x with
      | finite negative m => 
        have hnumber := Json.readNumber?_float .plain negative m Json.ends_nil
        rw [List.append_nil] at hnumber
        obtain ⟨m, hm, -⟩ | ⟨x, hx, hs⟩ := numeral?_of_readNumber? hnumber
        · cases hm
        · exact hs
      | _ => cases h
    change ∃ y, read .sqlite .json (Affinity.number r (Json.number .spaced x)) = .ok y ∧ _
    rw [Affinity.number, hnumeral]
    refine ⟨_, Affinity.read_settle _, ?_⟩
    rw [LogicalType.Preserves, if_pos (Or.inr rfl), Affinity.same_settle _ rfl]
    rfl
  | null => exact hother (by simp) (by simp) True.intro
  | bool b => exact hother (by simp) (by simp) True.intro
  | text s => exact hother (by simp) (by simp) True.intro
  | list items => exact hother (by simp) (by simp) True.intro
  | object entries => exact hother (by simp) (by simp) True.intro
  | _ => cases hdocument

end Binding

/-- A column of a result, and the value that was stored there. -/
structure Stored where
  label : String
  type : LogicalType
  value : Value

namespace Stored

/-- The cell that the driver is given. -/
def cell (c : Stored) : Value := (Binding.cell? c.type c.value).getD .null

/-- What stands in the column afterwards. -/
def kept (r : Reals) (c : Stored) : Value := Affinity.keep r (Affinity.ofType c.type) c.cell

theorem bind_eq (r : Reals) {c : Stored} (h : c.type.storable c.value = true) :
    Binding.bind .sqlite c.type c.value = .ok (.plain c.cell) ∧
      (∃ x, Binding.read .sqlite c.type c.cell = .ok x ∧ c.type.Preserves c.value x) ∧
      ∃ x, Binding.read .sqlite c.type (c.kept r) = .ok x ∧
        (c.type.Preserves c.value x ↔ (c.type = .json → r.Keeps c.value)) := by
  have hcell : ∀ y, Binding.bind? .sqlite c.type c.value = some (.plain y) →
      Binding.bind .sqlite c.type c.value = .ok (.plain y) ∧ y = c.cell := by
    intro y hy
    refine ⟨by rw [Binding.bind, hy], ?_⟩
    obtain ⟨z, hz, hzy⟩ := Option.map_eq_some_iff.1 hy
    cases hzy
    rw [cell, hz, Option.getD_some]
  rw [kept]
  by_cases ht : c.type = .json
  · rw [ht] at h
    obtain ⟨y, hy, hread, x, hx, hkept⟩ := Binding.read_keep_document r h
    rw [← ht] at hy hread hx hkept
    obtain ⟨hbind, rfl⟩ := hcell y hy
    exact ⟨hbind, hread, x, hx, hkept.trans ⟨fun hk _ => hk, fun hk => hk ht⟩⟩
  · obtain ⟨y, hy, hread, x, hx, hpreserves⟩ := Binding.read_keep r h ht
    obtain ⟨hbind, rfl⟩ := hcell y hy
    exact ⟨hbind, ⟨_, hread, Binding.preserves_self h ht⟩, x, hx,
      iff_of_true hpreserves fun hjson => absurd hjson ht⟩

end Stored

/-- A row is decoded to one entry for each label, with the value that was stored there. -/
def ReadsBack (q : Query.Compiled) (columns : List Stored) (cells : List Value) : Prop :=
  ∃ row, q.read .sqlite cells = .ok row ∧ (row.map (·.1)).Nodup ∧
    (∀ name, name ∈ row.map (·.1) ↔ name ∈ q.labels) ∧
    ∀ c ∈ columns, ∃ x, Entries.get? c.label row = some x ∧ c.type.Preserves c.value x

variable {q : Query.Compiled} {columns : List Stored}

/-- Labels and cells are paired by their places. -/
theorem read_columns (htypes : q.select.outputs.map (·.column.type) = columns.map (·.type))
    (hlabels : q.labels = columns.map (·.label))
    (hnames : ∀ a ∈ columns, ∀ b ∈ columns, a.label = b.label → a = b) {cell value : Stored → Value}
    (hread : ∀ c ∈ columns, Binding.read .sqlite c.type (cell c) = .ok (value c)) :
    ∃ row, q.read .sqlite (columns.map cell) = .ok row ∧ (row.map (·.1)).Nodup ∧
      (∀ name, name ∈ row.map (·.1) ↔ name ∈ q.labels) ∧
      ∀ c ∈ columns, Entries.get? c.label row = some (value c) := by
  have hzip : q.labels.zip (columns.map value) = columns.map fun c => (c.label, value c) := by
    rw [hlabels, List.zip_map']
  have hdecode : q.read .sqlite (columns.map cell) =
      .ok (Entries.ofPairs (columns.map fun c => (c.label, value c))) := by
    rw [Query.Compiled.read, htypes, Binding.readRow_map hread]
    change Query.Compiled.decode _ _ = _
    rw [Query.Compiled.decode, if_pos (by rw [hlabels, List.length_map, List.length_map]), hzip]
  have hmem : ∀ name, name ∈ (Entries.ofPairs (columns.map fun c => (c.label, value c))).map (·.1) ↔
      name ∈ q.labels := by
    intro name
    rw [Entries.mem_map_fst_ofPairs, hlabels, List.map_map]
    rfl
  refine ⟨_, hdecode, Entries.nodup_ofPairs _, hmem, fun c hc => ?_⟩
  obtain ⟨⟨name, x⟩, hx, rfl⟩ := List.mem_map.1
    ((hmem c.label).2 (hlabels ▸ List.mem_map_of_mem hc))
  obtain ⟨b, hb, hentry⟩ := List.mem_map.1 (Entries.mem_ofPairs hx)
  obtain ⟨hlabel, rfl⟩ := Prod.ext_iff.1 hentry
  obtain rfl := hnames c hc b hb hlabel.symm
  exact Entries.get?_of_mem (Entries.nodup_ofPairs _) hx

/-- The cells that are given for values of their types are read back as these values. A row of what
the columns keep can be read as well, and it shows the same values exactly if each document that is a
bare number is kept as an equal number. -/
theorem reads_back (r : Reals) (q : Query.Compiled) (columns : List Stored)
    (htypes : q.select.outputs.map (·.column.type) = columns.map (·.type))
    (hlabels : q.labels = columns.map (·.label))
    (hnames : ∀ a ∈ columns, ∀ b ∈ columns, a.label = b.label → a = b)
    (hvalues : ∀ c ∈ columns, c.type.storable c.value = true) :
    columns.mapM (fun c => Binding.bind .sqlite c.type c.value) =
        .ok (columns.map fun c => .plain c.cell) ∧
      ReadsBack q columns (columns.map Stored.cell) ∧
      (∃ row, q.read .sqlite (columns.map (Stored.kept r)) = .ok row) ∧
      (ReadsBack q columns (columns.map (Stored.kept r)) ↔
        ∀ c ∈ columns, c.type = .json → r.Keeps c.value) := by
  choose! x hx hpreserves using fun c hc => (Stored.bind_eq r (hvalues c hc)).2.1
  choose! y hy hkept using fun c hc => (Stored.bind_eq r (hvalues c hc)).2.2
  obtain ⟨row, hrow, hnodup, hmem, hget⟩ := read_columns htypes hlabels hnames hx
  obtain ⟨row', hrow', hnodup', hmem', hget'⟩ := read_columns htypes hlabels hnames hy
  refine ⟨Outcome.mapM_of_ok fun c hc => (Stored.bind_eq r (hvalues c hc)).1,
    ⟨row, hrow, hnodup, hmem, fun c hc => ⟨x c, hget c hc, hpreserves c hc⟩⟩, ⟨row', hrow'⟩, ?_⟩
  constructor
  · rintro ⟨row'', hrow'', -, -, hvalue⟩ c hc
    obtain rfl := Except.ok.inj (hrow'.symm.trans hrow'')
    obtain ⟨z, hz, hpreserved⟩ := hvalue c hc
    obtain rfl := Option.some.inj ((hget' c hc).symm.trans hz)
    exact (hkept c hc).1 hpreserved
  · exact fun hkeeps => ⟨row', hrow', hnodup', hmem', fun c hc =>
      ⟨y c, hget' c hc, (hkept c hc).2 (hkeeps c hc)⟩⟩

/-- A query for the columns of one table. -/
def Stored.query (table : String) (columns : List Stored) : Query.Compiled :=
  ⟨{ outputs := columns.map fun c => ⟨⟨.table table, c.label, c.type⟩, none⟩, source := { table } },
    columns.map (·.label)⟩

/-- Texts are read as the nearest reals. -/
def nearestReals : Reals := ⟨fun s => (Double.ofText? s).getD .nan, Double.text⟩

/-- A column of each type, and a document that is a large integer. -/
def samples : List Stored :=
  [⟨"open", .bool, .bool true⟩, ⟨"seats", .int, .int (-1)⟩,
    ⟨"serial", .bigint, .int 0x7fffffffffffffff⟩,
    ⟨"rate", .real, .float (.ofScientific false 15 (-1))⟩, ⟨"name", .text, .text "1e5"⟩,
    ⟨"seal", .blob, .bytes [0, 255]⟩, ⟨"since", .date, .date ⟨2024, 2, 29, by decide⟩⟩,
    ⟨"seen", .timestamp, .timestamp ⟨⟨1, 1, 1, by decide⟩, .midnight⟩⟩,
    ⟨"token", .uuid, .uuid ⟨7⟩⟩, ⟨"tags", .json, .list [.int (10 ^ 30), .null]⟩,
    ⟨"total", .json, .int (10 ^ 30)⟩, ⟨"note", .text, .null⟩]

/-- All are read back from the cells that were given, but not the integer from what is kept of it. -/
theorem reads_back_samples :
    ReadsBack (Stored.query "Room" samples) samples (samples.map Stored.cell) ∧
      ¬ReadsBack (Stored.query "Room" samples) samples (samples.map (Stored.kept nearestReals)) := by
  obtain ⟨-, hgiven, -, hkept⟩ := reads_back nearestReals (Stored.query "Room" samples) samples
    rfl rfl
    (List.inj_on_of_nodup_map (by decide)) (by decide +kernel)
  refine ⟨hgiven, fun hread => ?_⟩
  have hlost : ¬nearestReals.Keeps (.int (10 ^ 30)) := by
    rintro (h | h) <;> revert h <;> decide +kernel
  exact hlost (hkept.1 hread ⟨"total", .json, .int (10 ^ 30)⟩ (by simp [samples]) rfl)

end Sql

end SchemaLedger
