import RelStore.Proofs.Statement.Grammar
import RelStore.Statement.Parse

/-! What the readers of single parts of a statement read: a reader takes from the front of
the tokens what a rule of the grammar derives, and it finds everything that a rule derives
as long as no token follows that could belong to it as well. -/
namespace RelStore
namespace Statement

open Grammar

theorem Stuck.bind_eq_ok_iff {α β : Type} {x : Except Stuck α} {f : α → Except Stuck β} {b : β} :
    (x >>= f) = .ok b ↔ ∃ a, x = .ok a ∧ f a = .ok b := by
  cases x with
  | error e => simp [bind, Except.bind]
  | ok a => simp [bind, Except.bind]

theorem Stuck.bind_eq_error_iff {α β : Type} {x : Except Stuck α} {f : α → Except Stuck β}
    {e : Stuck} : (x >>= f) = .error e ↔ x = .error e ∨ ∃ a, x = .ok a ∧ f a = .error e := by
  cases x with
  | error e => simp [bind, Except.bind]
  | ok a => simp [bind, Except.bind]

theorem Stuck.bind_congr {α β : Type} {x : Except Stuck α} {f g : α → Except Stuck β}
    (h : ∀ a, x = .ok a → f a = g a) : (x >>= f) = (x >>= g) := by
  cases x with
  | error s => rfl
  | ok a => exact h a rfl

/-- Tokens begin with some of the kinds `us`, and `rest` is left behind these. -/
def Spells (us : List Token.Kind) (ts rest : List Token) : Prop :=
  ∃ front, ts = front ++ rest ∧ front.map Token.kind = us

def Clear (no : List Token.Kind) (ts : List Token) : Prop := ∀ t ∈ ts.head?, t.kind ∉ no

variable {us vs no : List Token.Kind} {ts mid rest : List Token} {k : Token.Kind}

theorem spells_nil : Spells [] ts ts := ⟨[], rfl, rfl⟩

theorem spells_nil_iff : Spells [] ts rest ↔ ts = rest := by
  constructor
  · rintro ⟨front, rfl, h⟩
    rw [List.map_eq_nil_iff] at h
    rw [h, List.nil_append]
  · rintro rfl
    exact spells_nil

theorem spells_singleton_iff : Spells [k] ts rest ↔ ∃ p, ts = ⟨k, p⟩ :: rest := by
  constructor
  · rintro ⟨front, rfl, h⟩
    obtain ⟨⟨k', p⟩, rfl, rfl⟩ := List.map_eq_singleton_iff.1 h
    exact ⟨p, rfl⟩
  · rintro ⟨p, rfl⟩
    exact ⟨[⟨k, p⟩], rfl, rfl⟩

theorem Spells.append (hu : Spells us ts mid) (hv : Spells vs mid rest) :
    Spells (us ++ vs) ts rest := by
  obtain ⟨front, rfl, rfl⟩ := hu
  obtain ⟨front', rfl, rfl⟩ := hv
  exact ⟨front ++ front', (List.append_assoc ..).symm, List.map_append⟩

theorem spells_append_iff :
    Spells (us ++ vs) ts rest ↔ ∃ mid, Spells us ts mid ∧ Spells vs mid rest := by
  constructor
  · rintro ⟨front, rfl, h⟩
    obtain ⟨front, front', rfl, rfl, rfl⟩ := List.map_eq_append_iff.1 h
    exact ⟨front' ++ rest, ⟨front, List.append_assoc .., rfl⟩, front', rfl, rfl⟩
  · rintro ⟨mid, hu, hv⟩
    exact hu.append hv

theorem Spells.cons (h : Spells [k] ts mid) (hu : Spells us mid rest) : Spells (k :: us) ts rest :=
  h.append hu

theorem spells_cons_iff :
    Spells (k :: us) ts rest ↔ ∃ mid, Spells [k] ts mid ∧ Spells us mid rest := by
  rw [← spells_append_iff, List.singleton_append]

theorem spells_end_iff : Spells us ts [] ↔ ts.map Token.kind = us := by
  constructor
  · rintro ⟨front, rfl, rfl⟩
    rw [List.append_nil]
  · rintro rfl
    exact ⟨ts, (List.append_nil ts).symm, rfl⟩

theorem Spells.length_eq (h : Spells us ts rest) : ts.length = us.length + rest.length := by
  obtain ⟨front, rfl, rfl⟩ := h
  simp

theorem clear_nil : Clear no [] := by simp [Clear]

/-- A token of a known kind comes next. -/
theorem Clear.of_spells (h : Spells (k :: us) ts rest) (hk : k ∉ no) : Clear no ts := by
  obtain ⟨mid, h, -⟩ := spells_cons_iff.1 h
  obtain ⟨p, rfl⟩ := spells_singleton_iff.1 h
  simpa [Clear] using hk

theorem Clear.mono {no' : List Token.Kind} (h : Clear no ts) (hs : no' ⊆ no) : Clear no' ts :=
  fun t ht hk => h t ht (hs hk)

theorem after?_eq_some_iff : after? k ts = some rest ↔ Spells [k] ts rest := by
  rw [spells_singleton_iff]
  cases ts with
  | nil => simp [after?]
  | cons t ts =>
    obtain ⟨k', p⟩ := t
    simp [after?]

theorem after?_eq_none_iff : after? k ts = none ↔ Clear [k] ts := by
  cases ts with
  | nil => simp [after?, Clear]
  | cons t ts => simp [after?, Clear]

theorem expect_eq_ok_iff : expect k ts = .ok rest ↔ Spells [k] ts rest := by
  rw [← after?_eq_some_iff]
  unfold expect
  cases after? k ts <;> simp

theorem identifier_eq_ok_iff {name : String} :
    identifier ts = .ok (name, rest) ↔ Spells [.identifier name] ts rest := by
  rw [spells_singleton_iff]
  constructor
  · intro h
    unfold identifier at h
    split at h
    · cases h
      exact ⟨_, rfl⟩
    · cases h
  · rintro ⟨p, rfl⟩
    rfl

theorem literal_eq_ok_iff {v : Value} :
    literal ts = .ok (v, rest) ↔ ∃ us, Literal v us ∧ Spells us ts rest := by
  constructor
  · intro h
    unfold literal at h
    split at h
    · split at h
      · rename_i n hn
        cases h
        exact ⟨_, .int (Text.int64?_eq_some_iff.1 hn), spells_singleton_iff.2 ⟨_, rfl⟩⟩
      · cases h
    · cases h
      exact ⟨_, .text, spells_singleton_iff.2 ⟨_, rfl⟩⟩
    · cases h
  · rintro ⟨us, h, hs⟩
    cases h with
    | int hn =>
      obtain ⟨p, rfl⟩ := spells_singleton_iff.1 hs
      simp only [literal, Text.int64?_eq_some_iff.2 hn]
    | text =>
      obtain ⟨p, rfl⟩ := spells_singleton_iff.1 hs
      rfl

theorem limit_eq_ok_iff {n : Nat} :
    limit ts = .ok (n, rest) ↔ ∃ us, Count n us ∧ Spells us ts rest := by
  constructor
  · intro h
    unfold limit at h
    split at h
    · split at h
      · rename_i m hm
        cases h
        obtain ⟨hm, hlt⟩ := Text.nat64?_eq_some_iff.1 hm
        exact ⟨_, .number hm hlt, spells_singleton_iff.2 ⟨_, rfl⟩⟩
      · cases h
    · cases h
  · rintro ⟨us, ⟨hn, hlt⟩, hs⟩
    obtain ⟨p, rfl⟩ := spells_singleton_iff.1 hs
    simp only [limit, Text.nat64?_eq_some_iff.2 ⟨hn, hlt⟩]

theorem dataType_eq_ok_iff {type : ColumnType} :
    dataType ts = .ok (type, rest) ↔ ∃ us, DataType type us ∧ Spells us ts rest := by
  constructor
  · intro h
    unfold dataType at h
    split at h
    · cases h
      exact ⟨_, .int, spells_singleton_iff.2 ⟨_, rfl⟩⟩
    · cases h
      exact ⟨_, .text, spells_singleton_iff.2 ⟨_, rfl⟩⟩
    · cases h
  · rintro ⟨us, h, hs⟩
    cases h with
    | int =>
      obtain ⟨p, rfl⟩ := spells_singleton_iff.1 hs
      rfl
    | text =>
      obtain ⟨p, rfl⟩ := spells_singleton_iff.1 hs
      rfl

/-- A reader reads what a rule derives, and all of it unless a token of the kinds `no`
follows. -/
structure Reads {α : Type} (r : Reader α) (R : Rule α) (no : List Token.Kind) : Prop where
  sound : ∀ {ts x rest}, r ts = .ok (x, rest) → ∃ us, R x us ∧ Spells us ts rest
  complete : ∀ {ts x rest us}, R x us → Spells us ts rest → Clear no rest → r ts = .ok (x, rest)

variable {α : Type} {r : Reader α} {R : Rule α}

theorem Reads.of_iff (h : ∀ {ts x rest}, r ts = .ok (x, rest) ↔ ∃ us, R x us ∧ Spells us ts rest) :
    Reads r R no :=
  ⟨fun hr => h.1 hr, fun hR hs _ => h.2 ⟨_, hR, hs⟩⟩

theorem Reads.congr {R' : Rule α} (h : Reads r R no) (hR : ∀ x us, R x us ↔ R' x us) :
    Reads r R' no := by
  constructor
  · intro ts x rest hr
    obtain ⟨us, hx, hs⟩ := h.sound hr
    exact ⟨us, (hR x us).1 hx, hs⟩
  · intro ts x rest us hx hs hc
    exact h.complete ((hR x us).2 hx) hs hc

theorem reads_identifier : Reads identifier Name no := by
  apply Reads.of_iff
  intro ts name rest
  rw [identifier_eq_ok_iff]
  constructor
  · intro h
    exact ⟨_, .identifier, h⟩
  · rintro ⟨us, ⟨⟩, h⟩
    exact h

theorem reads_literal : Reads literal Literal no := .of_iff literal_eq_ok_iff

theorem reads_optional (h : Reads r R no) : Reads (optional k r) (Optional k R) (k :: no) := by
  constructor
  · intro ts x rest hr
    unfold optional at hr
    split at hr
    · rename_i mid hk
      obtain ⟨⟨y, ts'⟩, hy, hr⟩ := Stuck.bind_eq_ok_iff.1 hr
      cases hr
      obtain ⟨us, hR, hs⟩ := h.sound hy
      exact ⟨_, .present hR, (after?_eq_some_iff.1 hk).cons hs⟩
    · cases hr
      exact ⟨_, .absent, spells_nil⟩
  · intro ts x rest us hx hs hc
    cases hx with
    | absent =>
      obtain rfl := spells_nil_iff.1 hs
      have hk : after? k ts = none := after?_eq_none_iff.2 (hc.mono (by simp))
      simp only [optional, hk]
    | present hR =>
      obtain ⟨mid, hk, hs⟩ := spells_cons_iff.1 hs
      have hy := h.complete hR hs (hc.mono (by simp))
      simp only [optional, after?_eq_some_iff.2 hk, hy]
      rfl

def Fits (may : List α → α → Prop) : List α → List α → Prop
  | _, [] => True
  | done, x :: xs => may done x ∧ Fits may (done ++ [x]) xs

variable {item : List α → Reader α} {may : List α → α → Prop}

theorem itemsFrom_sound (h : ∀ done, Reads (item done) (fun x us => R x us ∧ may done x) no)
    {fuel : Nat} {done xs : List α} (hf : ts.length < fuel)
    (hr : itemsFrom item fuel done ts = .ok (xs, rest)) :
    ∃ ys us, xs = done ++ ys ∧ Fits may done ys ∧ Series R ys us ∧ Spells us ts rest := by
  induction fuel generalizing done ts with
  | zero => omega
  | succ fuel ih =>
    obtain ⟨⟨x, mid⟩, hx, hr⟩ := Stuck.bind_eq_ok_iff.1 hr
    obtain ⟨us, ⟨hR, hm⟩, hs⟩ := (h done).sound hx
    dsimp only at hr
    split at hr
    · rename_i next hk
      have hk := after?_eq_some_iff.1 hk
      have hlt : next.length < fuel := by
        have hl := hs.length_eq
        have hl' := hk.length_eq
        simp only [List.length_singleton] at hl'
        omega
      obtain ⟨ys, vs, rfl, hfits, hys, hs'⟩ := ih hlt hr
      refine ⟨x :: ys, _, by simp, ⟨hm, hfits⟩, .more hR hys, hs.append (hk.cons hs')⟩
    · cases hr
      exact ⟨[x], us, rfl, ⟨hm, trivial⟩, .one hR, hs⟩

theorem itemsFrom_complete (h : ∀ done, Reads (item done) (fun x us => R x us ∧ may done x) no)
    (hno : .comma ∉ no) {fuel : Nat} {done xs : List α} (hf : ts.length < fuel)
    (hx : Series R xs us) (hm : Fits may done xs) (hs : Spells us ts rest)
    (hc : Clear (.comma :: no) rest) :
    itemsFrom item fuel done ts = .ok (done ++ xs, rest) := by
  induction hx generalizing fuel done ts with
  | one hR =>
    cases fuel with
    | zero => omega
    | succ fuel =>
      have hx := (h done).complete ⟨hR, hm.1⟩ hs (hc.mono (by simp))
      have hk : after? .comma rest = none := after?_eq_none_iff.2 (hc.mono (by simp))
      rw [itemsFrom, hx]
      simp only [bind, Except.bind, hk]
      rfl
  | @more x us xs vs hR _ ih =>
    cases fuel with
    | zero => omega
    | succ fuel =>
      obtain ⟨mid, hs, hs'⟩ := spells_append_iff.1 hs
      have hx := (h done).complete ⟨hR, hm.1⟩ hs (.of_spells hs' hno)
      obtain ⟨next, hk, hs'⟩ := spells_cons_iff.1 hs'
      have hlt : next.length < fuel := by
        have hl := hs.length_eq
        have hl' := hk.length_eq
        simp only [List.length_singleton] at hl'
        omega
      rw [itemsFrom, hx]
      simp only [bind, Except.bind, after?_eq_some_iff.2 hk]
      rw [ih hlt hm.2 hs']
      simp

theorem reads_items (h : ∀ done, Reads (item done) (fun x us => R x us ∧ may done x) no)
    (hno : .comma ∉ no) :
    Reads (items item) (fun xs us => Series R xs us ∧ Fits may [] xs) (.comma :: no) := by
  constructor
  · intro ts xs rest hr
    obtain ⟨ys, us, rfl, hfits, hys, hs⟩ := itemsFrom_sound h (Nat.lt_succ_self _) hr
    exact ⟨us, ⟨hys, hfits⟩, hs⟩
  · intro ts xs rest us hx hs hc
    exact itemsFrom_complete h hno (Nat.lt_succ_self _) hx.1 hx.2 hs hc

theorem fits_true (done xs : List α) : Fits (fun _ _ => True) done xs := by
  induction xs generalizing done with
  | nil => trivial
  | cons x xs ih => exact ⟨trivial, ih _⟩

/-- Items that may stand in any row. -/
theorem reads_series (h : Reads r R no) (hno : .comma ∉ no) :
    Reads (items fun _ => r) (Series R) (.comma :: no) := by
  have hitem : ∀ _ : List α, Reads r (fun x us => R x us ∧ True) no :=
    fun _ => h.congr fun x us => by simp
  exact (reads_items hitem hno).congr fun xs us => by simp [fits_true]

end Statement
end RelStore
