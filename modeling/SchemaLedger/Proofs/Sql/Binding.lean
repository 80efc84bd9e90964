import SchemaLedger.Proofs.Calendar
import SchemaLedger.Proofs.Json.Stored
import SchemaLedger.Proofs.Text.Hex
import SchemaLedger.Sql.Binding
import SchemaLedger.Sql.Write

set_option autoImplicit false

/-!
# Values that survive a database

The values of each logical type, and what a driver gives back for them. Every value of a type can be
a parameter, and what is read from its cell is the value itself, or, for a document, an equal one.
-/
namespace SchemaLedger

/-- The values of a logical type; every type has null. Documents are finite. -/
def LogicalType.admits : LogicalType → Value → Bool
  | .json, v => Json.isFiniteDocument v && v.wellFormed
  | _, .null => true
  | .bool, .bool _ => true
  | .int, .int n => decide (-0x80000000 ≤ n ∧ n < 0x80000000)
  | .bigint, .int n => decide (-0x8000000000000000 ≤ n ∧ n < 0x8000000000000000)
  | .real, .float x => !(Value.float x).isNan
  | .text, .text s => !s.toList.contains '\x00'
  | .date, .date _ => true
  | .timestamp, .timestamp _ => true
  | .blob, .bytes _ => true
  | .uuid, .uuid _ => true
  | _, _ => false

theorem LogicalType.admits_null (t : LogicalType) : t.admits .null = true := by
  cases t <;> rfl

/-- The values of a type, documents apart, one by one. -/
inductive LogicalType.Admitted : LogicalType → Value → Prop
  | null (t : LogicalType) : Admitted t .null
  | bool (b : Bool) : Admitted .bool (.bool b)
  | int (n : Int) : Admitted .int (.int n)
  | bigint (n : Int) : Admitted .bigint (.int n)
  | real (x : Double) : Admitted .real (.float x)
  | text (s : String) : Admitted .text (.text s)
  | date (d : Date) : Admitted .date (.date d)
  | timestamp (t : Timestamp) : Admitted .timestamp (.timestamp t)
  | blob (content : List UInt8) : Admitted .blob (.bytes content)
  | uuid (u : Uuid) : Admitted .uuid (.uuid u)

theorem LogicalType.admitted_of_admits {t : LogicalType} {v : Value} (h : t.admits v = true)
    (ht : t ≠ .json) : t.Admitted v := by
  cases t <;> cases v <;> first | exact absurd rfl ht | constructor | cases h

theorem LogicalType.isSingle_of_admits {t : LogicalType} {v : Value} (h : t.admits v = true)
    (ht : t ≠ .json) : v.isSingle = true := by
  cases admitted_of_admits h ht <;> rfl

theorem Date.ofIso?_iso (d : Date) : Date.ofIso? d.iso = some d := by
  have hread := Date.read?_iso d []
  rw [List.append_nil] at hread
  rw [Date.ofIso?, hread]

namespace Uuid

/-- No digit of an identifier is the first letter of a word that is dropped. -/
theorem dropWord_self {first : Char} {word cs : List Char} (h : first ∉ cs) :
    dropWord (first :: word) 0 cs = cs := by
  induction cs with
  | nil => rfl
  | cons c rest ih =>
    have hne : first ≠ c := fun heq => h (heq ▸ List.mem_cons_self)
    rw [dropWord, if_neg (by simp [hne]), ih fun hin => h (List.mem_cons_of_mem c hin)]

theorem ofText?_compact (u : Uuid) : ofText? u.compact = some u := by
  have hvalue : Text.hexFrom? 0 u.digits = some u.bits.toNat := Text.hexFrom?_hex 32 _
  have hnot : ∀ c, (hexValue? c).isSome = false → c ∉ u.digits := by
    intro c hc hin
    rw [Text.isSome_of_hexFrom? hvalue c hin] at hc
    cases hc
  have hbrace : ∀ cs : List Char, (∀ c ∈ cs, c ∈ u.digits) →
      cs.dropWhile (fun c => c = '\x7b' || c = '\x7d') = cs := by
    intro cs hcs
    cases cs with
    | nil => rfl
    | cons c rest =>
      refine List.dropWhile_cons_of_neg ?_
      have hin := hcs c List.mem_cons_self
      simp only [Bool.or_eq_true, decide_eq_true_eq, not_or]
      constructor <;> rintro rfl <;> exact hnot _ (by decide) hin
  have hfilter : u.digits.filter (· ≠ '-') = u.digits := by
    refine List.filter_eq_self.2 fun c hc => decide_eq_true ?_
    rintro rfl
    exact hnot _ (by decide) hc
  have hlength : u.digits.length = 32 := Text.length_hex (by decide) u.bits.isLt
  have hurn : dropWord "urn:".toList 0 u.digits = u.digits :=
    show dropWord ('u' :: "rn:".toList) 0 u.digits = _ from dropWord_self (hnot 'u' (by decide))
  have huuid : dropWord "uuid:".toList 0 u.digits = u.digits :=
    show dropWord ('u' :: "uid:".toList) 0 u.digits = _ from dropWord_self (hnot 'u' (by decide))
  have hlist : u.compact.toList = u.digits := String.toList_ofList
  rw [ofText?, hlist, hurn, huuid, hbrace _ fun _ hc => hc,
    hbrace _ fun c hc => List.mem_reverse.1 hc, List.reverse_reverse, hfilter, ofDigits?,
    if_pos hlength, ← Text.hexFrom?, hvalue, Option.map_some, BitVec.ofNat_toNat,
    BitVec.setWidth_eq]

end Uuid

namespace Sql

variable {d : Dialect} {t : LogicalType} {b : Bound} {v x : Value}

/-- A parameter beside a column has the type of the column. -/
theorem typeBeside_of_admits (h : t.admits v = true) (ht : t ≠ .json) : typeBeside t v = t := by
  have hsmall : ∀ n : Nat, (LogicalType.ofMagnitude n).isSerial = true := by
    intro n
    unfold LogicalType.ofMagnitude
    split <;> rfl
  cases LogicalType.admitted_of_admits h ht with
  | int n => exact if_pos (Bool.or_eq_true_iff.2 (Or.inr (Bool.and_eq_true_iff.2 ⟨hsmall _, rfl⟩)))
  | bigint n =>
    exact if_pos (Bool.or_eq_true_iff.2 (Or.inr (Bool.and_eq_true_iff.2 ⟨hsmall _, rfl⟩)))
  | _ => rfl

namespace Binding

/-- Whether a cell that was given a parameter can show a value. SQLite may keep a document that is a
number as this number; otherwise a cell shows what it was given. -/
def Returned (d : Dialect) (t : LogicalType) : Bound → Value → Prop
  | .plain v, x =>
    if d = .sqlite ∧ t = .json then
      ∃ u w, readDocument x = .ok u ∧ readDocument v = .ok w ∧ u.same w = true
    else x = v
  | .document v, x => x.same v = true

theorem document_spaced (h : t.admits v = true) (ht : t = .json) :
    Json.isDocument v = true ∧ Json.read (Json.render .spaced v) = .ok v ∧ v.same v = true := by
  subst ht
  rw [LogicalType.admits, Bool.and_eq_true] at h
  have hkeeps : v.everywhere Json.Style.sorted.keeps = true := by
    refine Value.everywhere_mono (fun x hx => ?_) v h.1
    cases x <;> first | rfl | cases hx
  have hread := Json.read_render Json.readable_spaced hkeeps
  rw [Json.reread_self v h.2] at hread
  exact ⟨(Json.isDocument_iff v).trans hkeeps, hread,
    Value.same_self v (Json.nanFree_of_finite h.1) h.2⟩

theorem truth?_bool (b : Bool) : truth? (.bool b) = some b := by
  cases b <;> rfl

theorem read_null (d : Dialect) (t : LogicalType) : read d t .null = .ok .null := by
  cases d <;> cases t <;> rfl

/-- What a value of a type is given as, and what is read of that. -/
theorem bind?_of_admitted (h : t.Admitted v) (ht : t ≠ .json) (d : Dialect) :
    ∃ y, bind? d t v = some (.plain y) ∧ read d t y = .ok v := by
  cases d with
  | postgresql =>
    refine ⟨v, ?_, rfl⟩
    cases h with
    | null t => cases t <;> first | rfl | exact absurd rfl ht
    | bool b =>
      rw [bind?, parameter?, truth?_bool, Option.map_some]
      nofun
    | _ => rfl
  | sqlite =>
    cases h with
    | null t => exact ⟨.null, by cases t <;> first | rfl | exact absurd rfl ht, read_null _ t⟩
    | bool b =>
      refine ⟨.int (if b then 1 else 0), ?_, by cases b <;> rfl⟩
      rw [bind?, cell?, truth?_bool] <;> first | rfl | nofun
    | date d =>
      refine ⟨.text d.iso, rfl, ?_⟩
      simp [read, readCell, Date.ofIso?_iso, denoted, Except.map]
    | timestamp t =>
      refine ⟨.text t.stored, rfl, ?_⟩
      simp [read, readCell, Timestamp.ofIso?_stored, denoted, Except.map]
    | uuid u => exact ⟨.text u.compact, rfl, by simp [read, readCell, Uuid.ofText?_compact]⟩
    | real x => exact ⟨.float x, rfl, rfl⟩
    | int n => exact ⟨.int n, rfl, rfl⟩
    | bigint n => exact ⟨.int n, rfl, rfl⟩
    | text s => exact ⟨.text s, rfl, rfl⟩
    | blob content => exact ⟨.bytes content, rfl, rfl⟩

theorem bind?_of_admits (h : t.admits v = true) (ht : t ≠ .json) (d : Dialect) :
    ∃ y, bind? d t v = some (.plain y) ∧ read d t y = .ok v :=
  bind?_of_admitted (LogicalType.admitted_of_admits h ht) ht d

theorem readRow_map {α : Type} {xs : List α} {type : α → LogicalType} {cell value : α → Value}
    (h : ∀ x ∈ xs, read d (type x) (cell x) = .ok (value x)) :
    readRow d (xs.map type) (xs.map cell) = .ok (xs.map value) := by
  induction xs with
  | nil => rfl
  | cons x rest ih =>
    obtain ⟨hx, hrest⟩ := List.forall_mem_cons.1 h
    simp only [List.map_cons, readRow, hx, ih hrest]
    rfl

theorem exists_bind (h : t.admits v = true) (d : Dialect) : ∃ b, bind? d t v = some b := by
  by_cases ht : t = .json
  · subst ht
    cases d with
    | postgresql => exact ⟨_, rfl⟩
    | sqlite =>
      rw [bind?, cell?, if_pos (document_spaced h rfl).1]
      exact ⟨_, rfl⟩
  · obtain ⟨y, hy, -⟩ := bind?_of_admits h ht d
    exact ⟨_, hy⟩

/-- The null of SQL is what every type but that of documents makes of null, and of nothing else. -/
theorem bind?_eq_null (d : Dialect) (t : LogicalType) (v : Value) :
    bind? d t v = some (.plain .null) ↔ v = .null ∧ t ≠ .json := by
  cases d with
  | postgresql => cases t <;> cases v <;> simp [bind?, parameter?]
  | sqlite => cases t <;> cases v <;> simp [bind?, cell?]

theorem read_of_returned (h : t.admits v = true) (ht : t ≠ .json) (hb : bind? d t v = some b)
    (hx : Returned d t b x) : read d t x = .ok v := by
  obtain ⟨y, hy, hread⟩ := bind?_of_admits h ht d
  obtain rfl := Option.some.inj (hy.symm.trans hb)
  rw [Returned, if_neg fun hand => ht hand.2] at hx
  rw [hx, hread]

/-- What is read of a cell with a document is an equal document. -/
theorem read_of_returned_document (h : LogicalType.json.admits v = true)
    (hb : bind? d .json v = some b) (hx : Returned d .json b x) :
    ∃ u, read d .json x = .ok u ∧ u.same v = true := by
  cases d with
  | postgresql =>
    cases hb
    exact ⟨x, rfl, hx⟩
  | sqlite =>
    obtain ⟨hdocument, hrender, -⟩ := document_spaced h rfl
    rw [bind?, cell?, if_pos hdocument] at hb
    cases hb
    obtain ⟨u, w, hu, hw, hsame⟩ := hx
    rw [readDocument, hrender] at hw
    cases hw
    refine ⟨u, ?_, hsame⟩
    cases x <;> first | exact hu | cases hu

end Binding

end Sql

end SchemaLedger
