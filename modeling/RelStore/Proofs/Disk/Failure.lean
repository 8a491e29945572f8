import RelStore.Proofs.Disk

/-! Saves that cannot be finished. Whatever step of it the device refuses or cannot be done,
a save that does not come to put its new file in its place leaves every file as it was, and
nothing new but the directory. -/
namespace RelStore
namespace Disk
variable {d d' d₁ : Disk} {temporary file : String} {refuses : Nat → Bool}
  {pieces : List (List UInt8) × List (List UInt8)} {sync : Bool} {e : Error}

def SameRoot (d d' : Disk) : Prop :=
  d'.node? [] = d.node? [] ∨ d.node? [] = none ∧ d'.node? [] = some .folder

theorem SameRoot.trans (h : SameRoot d d₁) (h' : SameRoot d₁ d') : SameRoot d d' := by
  rcases h' with h' | ⟨hnone, hmade⟩
  · rw [SameRoot, h']
    exact h
  · rcases h with h | ⟨hnone', hmade'⟩
    · exact .inr ⟨h ▸ hnone, hmade⟩
    · rw [hmade'] at hnone
      cases hnone

/-- The same files and folders, though the directory may have been made. -/
structure SameNodes (d d' : Disk) : Prop where
  root : SameRoot d d'
  nodes : ∀ p, p ≠ [] → d'.node? p = d.node? p

theorem SameNodes.refl (d : Disk) : SameNodes d d := ⟨.inl rfl, fun _ _ => rfl⟩

theorem sameNodes_makeDirectory (h : d.makeDirectory = some d') : SameNodes d d' := by
  rcases makeDirectory_eq_some_iff.1 h with ⟨-, rfl⟩ | ⟨hnone, rfl⟩
  · exact .refl d'
  · refine ⟨.inr ⟨hnone, ?_⟩, fun p hp => ?_⟩
    · rw [node?_put, if_pos rfl]
    · rw [node?_put, if_neg hp]

/-- Nothing else than a new file may differ. -/
structure Besides (temporary : String) (d d' : Disk) : Prop where
  root : SameRoot d d'
  nodes : ∀ p, p ≠ [] → p ≠ [temporary] → d'.node? p = d.node? p

theorem SameNodes.besides (h : SameNodes d d') : Besides temporary d d' :=
  ⟨h.root, fun p hp _ => h.nodes p hp⟩

theorem Besides.refl : Besides temporary d d := ⟨.inl rfl, fun _ _ _ => rfl⟩

theorem Besides.trans (h : Besides temporary d d₁) (h' : Besides temporary d₁ d') :
    Besides temporary d d' :=
  ⟨h.root.trans h'.root, fun p hp ht => (h'.nodes p hp ht).trans (h.nodes p hp ht)⟩

theorem Besides.remove (h : Besides temporary d d₁) (hnew : d.node? [temporary] = none) :
    SameNodes d (d₁.remove [temporary]) := by
  have hroot : (d₁.remove [temporary]).node? [] = d₁.node? [] := by
    rw [node?_remove, if_neg (by simp)]
  refine ⟨?_, fun p hp => ?_⟩
  · rw [SameRoot, hroot]
    exact h.root
  · rw [node?_remove]
    split
    · rename_i ht
      rw [ht, hnew]
    · rename_i ht
      exact h.nodes p hp ht

theorem besides_put (n : Node) : Besides temporary d (d.put [temporary] n) := by
  refine ⟨.inl ?_, fun p _ ht => ?_⟩
  · rw [node?_put, if_neg (by simp)]
  · rw [node?_put, if_neg ht]

def Step.Prepares (temporary : String) : Step → Prop
  | makeDirectory => True
  | createFile p => p = [temporary]
  | append p _ _ => p = [temporary]
  | syncFile _ => True
  | rename _ _ => False
  | syncDirectory => True

theorem besides_step {s : Step} (hs : s.Prepares temporary) (h : d.step s = some d') :
    Besides temporary d d' := by
  cases s with
  | makeDirectory => exact (sameNodes_makeDirectory h).besides
  | createFile p =>
    obtain rfl : p = [temporary] := hs
    cases h
    exact besides_put _
  | append p bytes flushed =>
    obtain rfl : p = [temporary] := hs
    simp only [step] at h
    split at h
    · cases h
      exact besides_put _
    · cases h
  | syncFile p =>
    cases h
    exact .refl
  | rename p file => exact hs.elim
  | syncDirectory =>
    cases h
    exact .refl

/-- Steps that only work on a new file change nothing else, however many of them are done. -/
theorem besides_perform {steps : List Step} (hs : ∀ s ∈ steps, s.Prepares temporary) {k : Nat}
    {r : Except Error Unit} (h : perform refuses k steps d = (r, d')) :
    Besides temporary d d' := by
  induction steps generalizing d k with
  | nil =>
    cases h
    exact .refl
  | cons s rest ih =>
    rw [perform] at h
    split at h
    · cases h
      exact .refl
    · split at h
      · rename_i d₁ hd₁
        have hfirst := besides_step (hs s List.mem_cons_self) hd₁
        exact hfirst.trans (ih (fun s hs' => hs s (List.mem_cons_of_mem _ hs')) h)
      · cases h
        exact .refl

theorem perform_append (xs ys : List Step) (k : Nat) (d : Disk) :
    perform refuses k (xs ++ ys) d = match perform refuses k xs d with
      | (.ok (), d₁) => perform refuses (k + xs.length) ys d₁
      | (.error e, d₁) => (.error e, d₁) := by
  induction xs generalizing k d with
  | nil => rfl
  | cons s rest ih =>
    rw [List.cons_append, perform, perform]
    by_cases hr : refuses k = true
    · rw [if_pos hr, if_pos hr]
    · rw [if_neg hr, if_neg hr]
      cases d.step s with
      | none => rfl
      | some d₁ =>
        have hlength : k + 1 + rest.length = k + (s :: rest).length := by
          rw [List.length_cons]
          omega
        simp only [ih, hlength]

theorem perform_append_ok {xs ys : List Step} {k : Nat}
    (h : perform refuses k (xs ++ ys) d = (.ok (), d')) :
    ∃ d₁, perform refuses k xs d = (.ok (), d₁) ∧
      perform refuses (k + xs.length) ys d₁ = (.ok (), d') := by
  rw [perform_append] at h
  split at h
  · rename_i d₁ hd₁
    exact ⟨d₁, hd₁, h⟩
  · cases h

theorem perform_cons_ok {s : Step} {rest : List Step} {k : Nat}
    (h : perform refuses k (s :: rest) d = (.ok (), d')) :
    ∃ d₁, d.step s = some d₁ ∧ perform refuses (k + 1) rest d₁ = (.ok (), d') := by
  rw [perform] at h
  split at h
  · cases h
  · split at h
    · rename_i d₁ hd₁
      exact ⟨d₁, hd₁, h⟩
    · cases h

theorem perform_singleton_error {s : Step} {k : Nat}
    (h : perform refuses k [s] d = (.error e, d')) : d' = d := by
  rw [perform] at h
  split at h
  · cases h
    rfl
  · split at h
    · cases h
    · cases h
      rfl

theorem besides_of_perform {steps : List Step} (hs : ∀ s ∈ steps, s.Prepares temporary)
    {last : Step} {k : Nat} (h : perform refuses k (steps ++ [last]) d = (.error e, d')) :
    Besides temporary d d' := by
  rw [perform_append] at h
  split at h
  · rename_i d₁ hd₁
    rw [perform_singleton_error h]
    exact besides_perform hs hd₁
  · rename_i d₁ hd₁
    cases h
    exact besides_perform hs hd₁

theorem Step.kind_refusal (s : Step) : s.refusal.kind = .io := by
  unfold refusal
  split <;> rfl

theorem kind_of_perform {steps : List Step} {k : Nat}
    (h : perform refuses k steps d = (.error e, d')) : e.kind = .io := by
  induction steps generalizing d k with
  | nil => cases h
  | cons s rest ih =>
    rw [perform] at h
    split at h
    · cases h
      exact s.kind_refusal
    · split at h
      · exact ih h
      · cases h
        exact s.kind_refusal

theorem prepares_prepareSteps :
    ∀ s ∈ prepareSteps sync temporary pieces, s.Prepares temporary := by
  intro s hs
  simp only [prepareSteps, List.mem_cons, List.mem_append, List.mem_map] at hs
  rcases hs with ((rfl | rfl | ⟨piece, -, rfl⟩) | ⟨piece, -, rfl⟩) | hsync
  · trivial
  · rfl
  · rfl
  · rfl
  · cases sync with
    | false => cases hsync
    | true =>
      obtain rfl := List.mem_singleton.1 hsync
      trivial

variable {device : Device} {bytes : List UInt8} {r : Except Error Unit}

theorem besides_of_commit (h : d.commit device sync file bytes = (.error e, d')) :
    Besides (device.temporary d) d d' :=
  besides_of_perform prepares_prepareSteps h

/-- Behind the step that puts the new file in its place nothing changes any more. -/
theorem perform_settleSteps {k : Nat} (h : perform refuses k (settleSteps sync) d = (r, d')) :
    d' = d ∧ (r = .ok () ∨ sync = true ∧ r = .error .io) := by
  cases sync with
  | false =>
    cases h
    exact ⟨rfl, .inl rfl⟩
  | true =>
    rw [settleSteps, if_pos rfl, perform] at h
    split at h
    · cases h
      exact ⟨rfl, .inr ⟨rfl, rfl⟩⟩
    · cases h
      exact ⟨rfl, .inl rfl⟩

/-- Either the new file is not put in its place and taken away, or it is there, whatever the save
then answers. -/
theorem saveOn_cases (h : d.saveOn device sync file bytes = (r, d')) :
    (∃ e d₁, d.commit device sync file bytes = (.error e, d₁) ∧ r = .error e ∧
      d' = d₁.remove [device.temporary d]) ∨
    d.commit device sync file bytes = (.ok (), d') ∧
      (r = .ok () ∨ sync = true ∧ r = .error .io) := by
  rw [saveOn] at h
  split at h
  · rename_i d₁ hcommit
    obtain ⟨rfl, hr⟩ := perform_settleSteps h
    exact .inr ⟨hcommit, hr⟩
  · rename_i e d₁ hcommit
    cases h
    exact .inl ⟨e, d₁, hcommit, rfl, rfl⟩

theorem sameNodes_of_commit (h : d.commit device sync file bytes = (.error e, d₁)) :
    SameNodes d (d₁.remove [device.temporary d]) :=
  (besides_of_commit h).remove (device.free d)

theorem saveOn_error (h : d.saveOn device sync file bytes = (.error e, d')) :
    (∃ d₁, d.commit device sync file bytes = (.error e, d₁) ∧
      d' = d₁.remove [device.temporary d]) ∨
    d.commit device sync file bytes = (.ok (), d') ∧ sync = true ∧ e = .io := by
  rcases saveOn_cases h with ⟨e', d₁, hcommit, he, hd'⟩ | ⟨hcommit, he | ⟨hsync, he⟩⟩
  · cases he
    exact .inl ⟨d₁, hcommit, hd'⟩
  · cases he
  · cases he
    exact .inr ⟨hcommit, hsync, rfl⟩

end Disk
end RelStore
