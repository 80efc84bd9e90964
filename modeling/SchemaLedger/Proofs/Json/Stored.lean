import SchemaLedger.Proofs.Json.RoundTrip
import SchemaLedger.Proofs.Value.Agreement

set_option autoImplicit false

/-!
# What a document keeps of a value

A value is stored as the nearest document. What comes back is the value without its infinite parts and
with texts for the values that documents do not have.
-/
namespace SchemaLedger.Json

mutual

/-- The nearest document is written by every style so that nothing of it is lost. -/
theorem keeps_toDocument (style : Style) (v : Value) :
    (toDocument v).everywhere style.keeps = true := by
  cases v with
  | float x =>
    rw [toDocument]
    split
    case isTrue h => simp [Value.everywhere, Style.keeps, h]
    case isFalse => rfl
  | list items =>
    rw [toDocument, Value.everywhere, keeps_toDocuments style items]
    rfl
  | object entries =>
    rw [toDocument, Value.everywhere, keeps_toDocumentEntries style entries]
    rfl
  | _ => rfl

theorem keeps_toDocuments (style : Style) (items : List Value) :
    Value.everywhereItems style.keeps (toDocuments items) = true := by
  cases items with
  | nil => rfl
  | cons v rest =>
    rw [toDocuments, Value.everywhereItems, keeps_toDocument style v, keeps_toDocuments style rest]
    rfl

theorem keeps_toDocumentEntries (style : Style) (entries : List (String × Value)) :
    Value.everywhereEntries style.keeps (toDocumentEntries entries) = true := by
  match entries with
  | [] => rfl
  | (name, v) :: rest =>
    rw [toDocumentEntries, Value.everywhereEntries, keeps_toDocument style v,
      keeps_toDocumentEntries style rest]
    rfl

end

/-- What is read back of a value that was stored. -/
def stored (v : Value) : Value := reread (toDocument v)

theorem read_render_toDocument {style : Style} (hs : style.Readable) (v : Value) :
    read (render style (toDocument v)) = .ok (stored v) :=
  read_render hs (keeps_toDocument style v)

theorem toDocuments_eq (items : List Value) : toDocuments items = items.map toDocument := by
  induction items with
  | nil => rfl
  | cons v rest ih => rw [toDocuments, ih, List.map_cons]

theorem toDocumentEntries_eq (entries : List (String × Value)) :
    toDocumentEntries entries = entries.map fun x => (x.1, toDocument x.2) := by
  induction entries with
  | nil => rfl
  | cons x rest ih => rw [toDocumentEntries, ih, List.map_cons]

theorem stored_list (items : List Value) : stored (.list items) = .list (items.map stored) := by
  rw [stored, toDocument, reread, toDocuments_eq, rereadItems_eq, List.map_map]
  rfl

/-- The entries of an object are stored one by one if no name stands twice. -/
theorem stored_object {entries : List (String × Value)} (h : (entries.map (·.1)).Nodup) :
    stored (.object entries) = .object (entries.map fun x => (x.1, stored x.2)) := by
  rw [stored, toDocument, reread, toDocumentEntries_eq, rereadEntries_eq,
    Entries.ofPairs_of_nodup, List.map_map]
  · rfl
  · rw [List.map_map, List.map_map]
    exact h

/-! ## Values of which nothing is lost -/

def isKept : Value → Bool
  | .float x => x.isFinite
  | .bytes _ | .date _ | .timestamp _ | .uuid _ => false
  | _ => true

/-- Whether a value is a document without infinite parts. -/
def isFiniteDocument : Value → Bool := Value.everywhere isKept

mutual

theorem toDocument_self (v : Value) (h : isFiniteDocument v = true) : toDocument v = v := by
  cases v with
  | float x =>
    have hx : x.isFinite = true := h
    rw [toDocument, if_pos hx]
  | list items =>
    simp only [isFiniteDocument, Value.everywhere, Bool.and_eq_true] at h
    rw [toDocument, toDocuments_self items h.2]
  | object entries =>
    simp only [isFiniteDocument, Value.everywhere, Bool.and_eq_true] at h
    rw [toDocument, toDocumentEntries_self entries h.2]
  | bytes content => cases h
  | date d => cases h
  | timestamp t => cases h
  | uuid u => cases h
  | _ => rfl

theorem toDocuments_self (items : List Value) (h : Value.everywhereItems isKept items = true) :
    toDocuments items = items := by
  cases items with
  | nil => rfl
  | cons v rest =>
    simp only [Value.everywhereItems, Bool.and_eq_true] at h
    rw [toDocuments, toDocument_self v h.1, toDocuments_self rest h.2]

theorem toDocumentEntries_self (entries : List (String × Value))
    (h : Value.everywhereEntries isKept entries = true) : toDocumentEntries entries = entries := by
  match entries with
  | [] => rfl
  | (name, v) :: rest =>
    simp only [Value.everywhereEntries, Bool.and_eq_true] at h
    rw [toDocumentEntries, toDocument_self v h.1, toDocumentEntries_self rest h.2]

end

theorem stored_self {v : Value} (h : isFiniteDocument v = true) (hw : v.wellFormed = true) :
    stored v = v := by
  rw [stored, toDocument_self v h, reread_self v hw]

theorem nanFree_of_finite {v : Value} (h : isFiniteDocument v = true) : v.nanFree = true := by
  refine Value.everywhere_mono (fun x hx => ?_) v h
  cases x with
  | float x => cases x <;> first | rfl | cases hx
  | _ => rfl

/-- A finite document survives being stored. -/
theorem same_stored {v : Value} (h : isFiniteDocument v = true) (hw : v.wellFormed = true) :
    (stored v).same v = true := by
  rw [stored_self h hw]
  exact Value.same_self v (nanFree_of_finite h) hw

@[simp]
theorem stored_text (s : String) : stored (.text s) = .text s := rfl

@[simp]
theorem stored_int (n : Int) : stored (.int n) = .int n := rfl

@[simp]
theorem stored_bool (b : Bool) : stored (.bool b) = .bool b := rfl

/-! ## Names in order

A declared default is written with the names of its objects in order. It reads back as the value with
its entries put in order. -/

mutual

/-- The style that sorts names writes what the other writes once entries are in order. -/
theorem renderAt_sorted (v : Value) (level : Nat) :
    renderAt .sorted level v = renderAt .spaced level v.ordered := by
  cases v with
  | list items =>
    rw [Value.ordered, renderAt, renderAt, renderItems_eq, renderItems_eq, Value.orderedItems_eq,
      List.map_map, List.map_congr_left (renderAt_sortedItems items (level + 1))]
    rfl
  | object entries =>
    have hparts : Value.arrange (renderEntries .sorted (level + 1) entries) =
        renderEntries .spaced (level + 1) (Value.arrange (Value.orderedEntries entries)) := by
      rw [renderEntries_eq, renderEntries_eq, Value.arrange_map, Value.orderedEntries_eq,
        List.map_map]
      refine congrArg Value.arrange (List.map_congr_left fun x hx => ?_)
      exact congrArg (x.1, ·) (renderAt_sortedEntries entries (level + 1) x hx)
    rw [Value.ordered, renderAt, renderAt, ← hparts]
    rfl
  | _ => rfl

theorem renderAt_sortedItems (items : List Value) (level : Nat) :
    ∀ v ∈ items, renderAt .sorted level v = renderAt .spaced level v.ordered := by
  match items with
  | [] => simp
  | v :: rest =>
    exact List.forall_mem_cons.2 ⟨renderAt_sorted v level, renderAt_sortedItems rest level⟩

theorem renderAt_sortedEntries (entries : List (String × Value)) (level : Nat) :
    ∀ x ∈ entries, renderAt .sorted level x.2 = renderAt .spaced level x.2.ordered := by
  match entries with
  | [] => simp
  | (name, v) :: rest =>
    exact List.forall_mem_cons.2 ⟨renderAt_sorted v level, renderAt_sortedEntries rest level⟩

end

mutual

theorem isDocument_iff (v : Value) : isDocument v = v.everywhere Style.sorted.keeps := by
  cases v with
  | list items => rw [isDocument, Value.everywhere, allDocuments_iff items]; rfl
  | object entries => rw [isDocument, Value.everywhere, allEntriesDocuments_iff entries]; rfl
  | _ => rfl

theorem allDocuments_iff (items : List Value) :
    allDocuments items = Value.everywhereItems Style.sorted.keeps items := by
  match items with
  | [] => rfl
  | v :: rest => rw [allDocuments, Value.everywhereItems, isDocument_iff v, allDocuments_iff rest]

theorem allEntriesDocuments_iff (entries : List (String × Value)) :
    allEntriesDocuments entries = Value.everywhereEntries Style.sorted.keeps entries := by
  match entries with
  | [] => rfl
  | (name, v) :: rest =>
    rw [allEntriesDocuments, Value.everywhereEntries, isDocument_iff v, allEntriesDocuments_iff rest]

end

theorem keeps_ordered {v : Value} (hd : isDocument v = true) :
    v.ordered.everywhere Style.spaced.keeps = true := by
  rw [isDocument_iff] at hd
  refine Value.everywhere_ordered (fun v hv => ?_) v hd
  cases v <;> first | rfl | exact hv

/-- A document with its names in order reads back as the value with its entries in order. -/
theorem read_render_sorted {v : Value} (hd : isDocument v = true) (hw : v.wellFormed = true) :
    read (render .sorted v) = .ok v.ordered := by
  rw [render, renderAt_sorted]
  exact (read_render readable_spaced (keeps_ordered hd)).trans
    (congrArg Except.ok (reread_self _ (Value.wellFormed_ordered hw)))

end SchemaLedger.Json
