import Mathlib.Algebra.Group.Nat.Defs
import SchemaLedger.Uuid

set_option autoImplicit false

/-!
# Hexadecimal digits read back
-/
namespace SchemaLedger.Text

/-- The number that hexadecimal digits continue, if they are all digits. -/
def hexFrom? (n : Nat) (cs : List Char) : Option Nat :=
  cs.foldlM (fun n c => (Uuid.hexValue? c).map (16 * n + ·)) n

theorem hexFrom?_append (n : Nat) (cs ds : List Char) :
    hexFrom? n (cs ++ ds) = (hexFrom? n cs).bind fun k => hexFrom? k ds := by
  rw [hexFrom?, List.foldlM_append]
  rfl

theorem hexValue?_digitChar : ∀ n < 16, Uuid.hexValue? (Nat.digitChar n) = some n := by
  decide

theorem hexFrom?_digit {d : Nat} (hd : d < 16) (n : Nat) :
    hexFrom? n [Nat.digitChar d] = some (16 * n + d) := by
  simp [hexFrom?, hexValue?_digitChar d hd]

theorem hexFrom?_toDigits (n : Nat) : hexFrom? 0 (Nat.toDigits 16 n) = some n := by
  induction n using Nat.strongRecOn with
  | ind n ih =>
    rw [Nat.toDigits_eq_if (by decide)]
    split
    case isTrue hlt => rw [hexFrom?_digit hlt, Nat.mul_zero, Nat.zero_add]
    case isFalse hge =>
      rw [hexFrom?_append, ih (n / 16) (by omega)]
      simp only [Option.bind_some]
      rw [hexFrom?_digit (by omega), Nat.div_add_mod]

theorem hexFrom?_zeros (k : Nat) : hexFrom? 0 (List.replicate k '0') = some 0 := by
  induction k with
  | zero => rfl
  | succ k ih =>
    rw [List.replicate_succ', hexFrom?_append, ih]
    rfl

theorem hexFrom?_hex (w n : Nat) : hexFrom? 0 (hex w n) = some n := by
  rw [hex, hexFrom?_append, hexFrom?_zeros]
  exact hexFrom?_toDigits n

/-- What is read as a number has no other characters. -/
theorem isSome_of_hexFrom? {n m : Nat} {cs : List Char} (h : hexFrom? n cs = some m) :
    ∀ c ∈ cs, (Uuid.hexValue? c).isSome = true := by
  induction cs generalizing n with
  | nil => exact List.forall_mem_nil _
  | cons c rest ih =>
    obtain ⟨k, hk, hrest⟩ := Option.bind_eq_some_iff.1 h
    obtain ⟨d, hd, -⟩ := Option.map_eq_some_iff.1 hk
    exact List.forall_mem_cons.2 ⟨by rw [hd]; rfl, ih hrest⟩

theorem length_hex {w n : Nat} (hw : 0 < w) (hn : n < 16 ^ w) : (hex w n).length = w := by
  have hle := (Nat.length_toDigits_le_iff (by decide) hw).2 hn
  rw [hex, List.length_append, List.length_replicate]
  omega

end SchemaLedger.Text
