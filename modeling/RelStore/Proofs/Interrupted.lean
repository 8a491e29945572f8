import RelStore.Proofs.Trace

/-! Runs under a signal beside the same runs undisturbed. A trace only grows, so the polls
of a run are the places in the trace it leaves, and the first one that meets the signal is
where the run stops. -/
namespace RelStore

def Trace.Polled (t t' u : Trace) : Prop := t <:+ u ∧ Step.poll :: u <:+ t'

namespace Trace
variable {t m t' u : Trace}

theorem not_polled_self : ¬ Polled t t u := by
  intro h
  have hle := h.1.length_le
  have hlt := h.2.length_le
  simp only [List.length_cons] at hlt
  omega

/-- The polls of a run that goes by way of `m` are those before and those after. -/
theorem polled_iff_of_between (ht : t <:+ m) (hm : m <:+ t') :
    Polled t t' u ↔ Polled t m u ∨ Polled m t' u := by
  constructor
  · rintro ⟨htu, hut⟩
    rcases List.suffix_or_suffix_of_suffix hut hm with hum | hmu
    · exact .inl ⟨htu, hum⟩
    · rcases List.suffix_cons_iff.1 hmu with rfl | hmu
      · exact .inl ⟨htu, List.suffix_rfl⟩
      · exact .inr ⟨hmu, hut⟩
  · rintro (h | h)
    · exact ⟨h.1, h.2.trans hm⟩
    · exact ⟨ht.trans h.1, h.2⟩

theorem polled_poll_iff : Polled t (.poll :: t) u ↔ u = t := by
  constructor
  · rintro ⟨htu, hut⟩
    have hle := hut.length_le
    simp only [List.length_cons, Nat.add_le_add_iff_right] at hle
    exact (htu.eq_of_length_le hle).symm
  · rintro rfl
    exact ⟨List.suffix_rfl, List.suffix_rfl⟩

theorem not_polled_mark {label : Nat} : ¬ Polled t (.mark label :: t) u := by
  rintro ⟨htu, hut⟩
  rcases List.suffix_cons_iff.1 hut with h | h
  · cases h
  · exact not_polled_self ⟨htu, h⟩

def Quiet (signal : Signal) (t t' : Trace) : Prop := ∀ u, Polled t t' u → signal u = false

/-- A run from `t` to `t'` meets the signal first when its trace is `u`. -/
structure Stops (signal : Signal) (t t' u : Trace) : Prop where
  polled : Polled t t' u
  given : signal u = true
  quiet : Quiet signal t u

variable {signal : Signal}

theorem Quiet.trans (ht : t <:+ m) (hm : m <:+ t') (h : Quiet signal t m)
    (h' : Quiet signal m t') : Quiet signal t t' := by
  intro u hu
  rcases (polled_iff_of_between ht hm).1 hu with hu | hu
  · exact h u hu
  · exact h' u hu

theorem Stops.before (ht : t <:+ m) (hm : m <:+ t') (h : Stops signal t m u) :
    Stops signal t t' u :=
  ⟨(polled_iff_of_between ht hm).2 (.inl h.polled), h.given, h.quiet⟩

theorem Stops.after (ht : t <:+ m) (hm : m <:+ t') (h : Quiet signal t m)
    (h' : Stops signal m t' u) : Stops signal t t' u :=
  ⟨(polled_iff_of_between ht hm).2 (.inr h'.polled), h'.given, h.trans ht h'.polled.1 h'.quiet⟩

end Trace

namespace Watched
open Trace
variable {α β : Type} {signal : Signal}

/-- The run `x` goes as the run `y` if `y` meets no signal; otherwise it is cancelled where
`y` meets the signal first. -/
def Interrupted (signal : Signal) (x y : Watched α) : Prop :=
  ∀ t r t', y.run.run t = (r, t') → t <:+ t' ∧
    (Quiet signal t t' ∧ x.run.run t = (r, t') ∨
      ∃ u, Stops signal t t' u ∧ x.run.run t = (.error .cancelled, u))

theorem interrupted_lift (x : Except Error α) :
    Interrupted signal (liftM x) (liftM x : Watched α) := by
  intro t r t' h
  have hxt := run_lift x t
  obtain ⟨rfl, rfl⟩ := Prod.mk.inj (hxt.symm.trans h)
  exact ⟨List.suffix_rfl, .inl ⟨fun u hu => absurd hu not_polled_self, hxt⟩⟩

theorem interrupted_pure (a : α) : Interrupted signal (pure a) (pure a : Watched α) :=
  interrupted_lift (.ok a)

theorem interrupted_pass (label : Nat) : Interrupted signal (pass label) (pass label) := by
  intro t r t' h
  obtain ⟨rfl, rfl⟩ := Prod.mk.inj ((run_pass label t).symm.trans h)
  exact ⟨List.suffix_cons _ _, .inl ⟨fun u hu => absurd hu not_polled_mark, run_pass label t⟩⟩

theorem interrupted_poll : Interrupted signal (poll signal) (poll .never) := by
  intro t r t' h
  obtain ⟨rfl, rfl⟩ := Prod.mk.inj ((run_poll_never t).symm.trans h)
  refine ⟨List.suffix_cons _ _, ?_⟩
  have hrun := run_poll signal t
  cases hs : signal t with
  | false =>
    rw [hs] at hrun
    refine .inl ⟨fun u hu => ?_, hrun⟩
    rw [polled_poll_iff.1 hu, hs]
  | true =>
    rw [hs] at hrun
    exact .inr ⟨t, ⟨polled_poll_iff.2 rfl, hs, fun u hu => absurd hu not_polled_self⟩, hrun⟩

theorem Interrupted.bind {x y : Watched α} {f g : α → Watched β} (hx : Interrupted signal x y)
    (hf : ∀ a, Interrupted signal (f a) (g a)) : Interrupted signal (x >>= f) (y >>= g) := by
  intro t r t' h
  rw [run_bind] at h
  simp only [run_bind]
  rcases hy : y.run.run t with ⟨_ | a, m⟩
  · -- an error of `y` ends both runs, unless `x` was stopped before
    rw [hy] at h
    obtain ⟨rfl, rfl⟩ := Prod.mk.inj h
    obtain ⟨htm, ⟨hq, hrun⟩ | ⟨u, hu, hrun⟩⟩ := hx t _ m hy
    · exact ⟨htm, .inl ⟨hq, by rw [hrun]⟩⟩
    · exact ⟨htm, .inr ⟨u, hu, by rw [hrun]⟩⟩
  · rw [hy] at h
    obtain ⟨hmt', hsecond⟩ := hf a m r t' h
    obtain ⟨htm, ⟨hq, hrun⟩ | ⟨u, hu, hrun⟩⟩ := hx t _ m hy
    · refine ⟨htm.trans hmt', ?_⟩
      rcases hsecond with ⟨hq', hrun'⟩ | ⟨u, hu, hrun'⟩
      · exact .inl ⟨hq.trans htm hmt' hq', by rw [hrun]; exact hrun'⟩
      · exact .inr ⟨u, hu.after htm hmt' hq, by rw [hrun]; exact hrun'⟩
    · exact ⟨htm.trans hmt', .inr ⟨u, hu.before htm hmt', by rw [hrun]⟩⟩

end Watched
end RelStore
