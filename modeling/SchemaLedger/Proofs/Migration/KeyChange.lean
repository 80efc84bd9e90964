import SchemaLedger.Proofs.Migration.DiffReplay

set_option autoImplicit false

/-!
# Changed keys

The differ compares fields of one name, so it refuses a changed key as long as one of the two keys shares
its name with a field of the other side. A key that moves to a new name passes as one field removed and
one added, and the steps cannot be replayed.
-/
namespace SchemaLedger.Diff

open Step (applyAll)

variable {a b c : Schema} {steps : List Step}

def IsUnsupported (e : DiffFault) : Prop :=
  ∃ entity field old new, e = .unsupported entity field old new

theorem alteration_error {n : String} {old new : Field} {e : DiffFault}
    (h : alteration n old new = .error e) : IsUnsupported e := by
  unfold alteration at h
  split at h
  · cases h
  · split at h
    · cases h
      exact ⟨_, _, _, _, rfl⟩
    · split at h
      · cases h
        exact ⟨_, _, _, _, rfl⟩
      · cases h

theorem ofEntity_error {old new : Entity} {e : DiffFault} (h : ofEntity old new = .error e) :
    IsUnsupported e := by
  unfold ofEntity at h
  rcases (Outcome.bind_eq_error _ _ e).1 h with h | ⟨_, -, h⟩
  · unfold alteredFields at h
    rcases (Outcome.bind_eq_error _ _ e).1 h with h | ⟨_, -, h⟩
    · refine Outcome.mapM_error (fun f _ e hf => ?_) h
      split at hf
      · cases hf
      · exact alteration_error hf
    · cases h
  · cases h

/-- A field that cannot become its counterpart is found before any cycle. -/
theorem diff_of_not_migratable (ha : a.Sound) (h : ¬ Migratable a b) :
    ∃ e, diff a b = .error e ∧ IsUnsupported e := by
  cases hm : (kept a b).mapM fun p => ofEntity p.1 p.2 with
  | ok ps =>
    have hall := (Outcome.mapM_eq_ok (fun p q => ofEntity_eq_ok p.1 p.2 q) _ ps).1 hm
    exact absurd ((migratable_iff ha).1 hall.1) h
  | error e =>
    exact ⟨e, (Outcome.bind_eq_error _ _ e).2 (Or.inl hm),
      Outcome.mapM_error (fun p _ e he => ofEntity_error he) hm⟩

/-! ## Keys -/

/-- What a key keeps while its name stays. -/
theorem Alterable.key {f g : Field} (h : Alterable f g) (hp : g.primaryKey = true) :
    f.type = g.type ∧ f.auto = g.auto := by
  rcases h with h | ⟨h, -⟩
  · simp only [Field.same, Bool.and_eq_true, decide_eq_true_eq] at h
    exact ⟨h.1.1.1.1.1.2, h.1.2⟩
  · simp only [keepsIdentity, hp, Bool.true_and, Bool.and_eq_true, decide_eq_true_eq,
      Bool.not_eq_true', decide_eq_false_iff_not, not_not] at h
    exact ⟨h.2, h.1.2⟩

/-- Whether `k` and `l` differ in what a key must keep. -/
def KeyDiffers (k l : Field) : Prop := k.name ≠ l.name ∨ k.type ≠ l.type ∨ k.auto ≠ l.auto

/-- Whether neither key has the name of a field on the other side. -/
def KeyMoves (a b : Schema) (n : String) (k l : Field) : Prop :=
  (∀ g, b.Declares (.field n g) → g.name ≠ k.name) ∧ ∀ f, a.Declares (.field n f) → f.name ≠ l.name

section Keys

variable {n : String} {k l : Field} (ha : a.Sound) (hb : b.Sound) (hk : a.Declares (.field n k))
  (hl : b.Declares (.field n l)) (hkp : k.primaryKey = true) (hlp : l.primaryKey = true)

include ha hb hk hl hkp hlp

theorem keyMoves_of_migratable (hm : Migratable a b) (hdiff : KeyDiffers k l) :
    KeyMoves a b n k l := by
  have hsame : k.name ≠ l.name := by
    intro hn
    obtain ⟨ht, hauto⟩ := (hm n k l hk hl hn).key hlp
    rcases hdiff with h | h | h
    · exact h hn
    · exact h ht
    · exact h hauto
  constructor
  · intro g hg hn
    have hp := (hm n k g hk hg hn.symm).primaryKey
    obtain rfl := hb.key_unique hg hl (hp.symm.trans hkp) hlp
    exact hsame hn.symm
  · intro f hf hn
    have hp := (hm n f l hf hl hn).primaryKey
    obtain rfl := ha.key_unique hf hk (hp.trans hlp) hkp
    exact hsame hn

theorem not_replayed (hdiff : KeyDiffers k l) (h : diff a b = .ok steps) :
    applyAll a steps ≠ .ok c := by
  intro hrun
  have hm := (migratable_iff ha).1 ((diff_eq_ok a b _).1 h).1
  obtain ⟨down, up, rfl, hdraft⟩ := draft_of_diff ha hb h
  have hname := hdraft.sameKeys ha hb hrun n k l hk hl hkp hlp
  exact (keyMoves_of_migratable ha hb hk hl hkp hlp hm hdiff).1 l hl hname.symm

end Keys

/-- A changed key is refused unless it moves, and then the steps returned cannot be replayed. -/
theorem diff_of_changed_key {n : String} {k l : Field} (ha : a.Valid) (hb : b.Valid)
    (hk : a.Declares (.field n k)) (hl : b.Declares (.field n l)) (hkp : k.primaryKey = true)
    (hlp : l.primaryKey = true) (hdiff : KeyDiffers k l) :
    (¬ KeyMoves a b n k l → ∃ e, diff a b = .error e ∧ IsUnsupported e) ∧
      ((∃ steps, diff a b = .ok steps) ↔ KeyMoves a b n k l ∧ Migratable a b ∧
        (∃ drops, orderOf (created b a) a = .ok drops) ∧
          ∃ creates, orderOf (created a b) b = .ok creates) ∧
        ∀ steps c, diff a b = .ok steps → applyAll a steps ≠ .ok c := by
  rw [Schema.valid_iff_sound] at ha hb
  refine ⟨fun hmoves => ?_, ⟨?_, ?_⟩, fun steps c h => ?_⟩
  · refine diff_of_not_migratable ha fun hm => hmoves ?_
    exact keyMoves_of_migratable ha hb hk hl hkp hlp hm hdiff
  · rintro ⟨steps, h⟩
    obtain ⟨hc, drops, creates, hd, hcr, -⟩ := (diff_eq_ok a b steps).1 h
    have hm := (migratable_iff ha).1 hc
    exact ⟨keyMoves_of_migratable ha hb hk hl hkp hlp hm hdiff, hm, ⟨drops, hd⟩, ⟨creates, hcr⟩⟩
  · rintro ⟨-, hm, ⟨drops, hd⟩, ⟨creates, hcr⟩⟩
    exact ⟨_, (diff_eq_ok a b _).2 ⟨(migratable_iff ha).2 hm, drops, creates, hd, hcr, rfl⟩⟩
  · exact not_replayed ha hb hk hl hkp hlp hdiff h

def keyed (name : String) : Schema where
  entities := [{ name := "A", fields := [{ account with name := name }] }]

theorem diff_of_renamed_key :
    ∃ steps, diff (keyed "id") (keyed "key") = .ok steps ∧
      ∀ c, applyAll (keyed "id") steps ≠ .ok c := by
  have hdeclares : ∀ name, (keyed name).Declares (.field "A" { account with name := name }) :=
    fun name => ⟨_, List.mem_singleton_self _, rfl, List.mem_singleton_self _⟩
  obtain ⟨steps, h⟩ := Outcome.exists_ok (x := diff (keyed "id") (keyed "key")) (by decide +kernel)
  obtain ⟨-, -, hnever⟩ := diff_of_changed_key (by decide +kernel) (by decide +kernel)
    (hdeclares "id") (hdeclares "key") rfl rfl (.inl (by decide))
  exact ⟨steps, h, fun c => hnever steps c h⟩

end SchemaLedger.Diff
