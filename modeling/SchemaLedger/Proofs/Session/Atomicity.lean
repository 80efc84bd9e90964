import SchemaLedger.Proofs.Session.Bracket
import SchemaLedger.Proofs.Session.Notebook

set_option autoImplicit false

/-!
# Whole batches or nothing

What a migrator says while it brings a database up to date, whatever the database answers: records
stand behind whole batches only, nothing but whole batches is kept, and after the first refusal there
is nothing but the way out.
-/
namespace SchemaLedger.Session

open Exchange (since engaged advance engage Closes Blank)
open World (Steady Busy)

variable {d : Dialect} {m : Migrator} {now : Timestamp} {α β : Type} {t t' : List Exchange}
  {σ : Type} {s : Setting σ} {c : Nat} {u v w w' : World σ}

/-! ## Making connections -/

/-- What is said while a connection is made. -/
def Prepares (d : Dialect) (x : Exchange) : Prop :=
  x.event = .connect ∨ x.event = .close ∨
    d = .sqlite ∧ (x.request? = some (.foreignKeys true) ∨ x.request? = some .journal)

theorem Prepares.free {x : Exchange} (h : Prepares d x) : x.Free := by
  rcases h with h | h | ⟨-, h | h⟩
  · exact ⟨by simp [h], by simp [h], fun q hq => by rw [Exchange.request?, h] at hq; cases hq⟩
  · exact ⟨by simp [h], by simp [h], fun q hq => by rw [Exchange.request?, h] at hq; cases hq⟩
  · exact Exchange.free_of_request h rfl
  · exact Exchange.free_of_request h rfl

theorem Prepares.engage {x : Exchange} (h : Prepares d x) (busy : Bool) :
    Exchange.engage d busy x = busy := by
  rcases h with h | h | ⟨rfl, h | h⟩
  · rw [Exchange.engage, h]
  · rw [Exchange.engage, h]
  · exact engage_switch h busy
  · rw [engage_of_request h]
    exact Bool.or_false busy

theorem Prepares.blank {x : Exchange} (h : Prepares d x) : Blank [x] := by
  rcases h with h | h | ⟨-, h | h⟩
  · exact Exchange.blank_of_no_request (by rw [Exchange.request?, h])
  · exact Exchange.blank_of_no_request (by rw [Exchange.request?, h])
  · exact Exchange.blank_of_request h rfl rfl
  · exact Exchange.blank_of_request h rfl rfl

/-- Between two operations no transaction is open on a connection that waits. -/
structure Free (w : World σ) : Prop where
  tidy : w.Tidy
  idle : ∀ i ∈ w.idle, ¬ w.Busy i

theorem Prepares.blamed {u : List Exchange} {x : Exchange} {e : Error} (h : Prepares d x) :
    Blamed d m now u x e := by
  rcases h with h | h | ⟨-, h | h⟩
  · exact blamed_of_no_request (by rw [Exchange.request?, h])
  · exact blamed_of_no_request (by rw [Exchange.request?, h])
  · exact blamed_of_request h (by simp) (by simp)
  · exact blamed_of_request h (by simp) (by simp)

end SchemaLedger.Session
