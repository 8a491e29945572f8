import Mathlib.Algebra.Order.BigOperators.Group.List
import RelStore.Proofs.Statement.Rendering

/-! Where readers stop. The tokens that were read until a reader is stuck begin something that
the grammar derives, so that no reader goes too far; the one exception is a column that is
assigned twice, for it is found out behind its name. -/
namespace RelStore
namespace Token

variable {kind : Kind} {k : Keyword}

theorem writable_singleton_iff : Writable [kind] ↔ ∃ body, Spelling kind body :=
  List.forall_mem_singleton

theorem writable_keyword : Writable [.keyword k] :=
  writable_singleton_iff.2 ⟨k.word.toList, .keyword (by cases k <;> decide)⟩

theorem writable_equal : Writable [.equal] := writable_singleton_iff.2 ⟨_, .equal⟩

theorem writable_leftParen : Writable [.leftParen] := writable_singleton_iff.2 ⟨_, .leftParen⟩

theorem writable_rightParen : Writable [.rightParen] := writable_singleton_iff.2 ⟨_, .rightParen⟩

theorem writable_text : Writable [.text ""] :=
  writable_singleton_iff.2 ⟨_, .text List.not_mem_nil⟩

theorem writable_number : Writable [.number "0"] :=
  writable_singleton_iff.2 ⟨['0'], .number (List.all_eq_true.1 (by decide))⟩

/-- There is always another name. -/
theorem writable_identifier (seen : List String) : ∃ name ∉ seen, Writable [.identifier name] := by
  -- no keyword begins with x, and a row of them can be made longer than any name
  let xs := List.replicate (seen.map String.length).sum 'x'
  have hx : ∀ k : Keyword, k.word.toList.head? ≠ some 'x' := by
    intro k
    cases k <;> decide
  have hspelling : Spelling (.identifier (String.ofList ('x' :: xs))) ('x' :: xs) := by
    refine .identifier (by decide) ?_ ?_
    · intro d hd
      rw [List.eq_of_mem_replicate hd]
      decide
    · intro k hk
      apply hx k
      rw [← hk]
      rfl
  refine ⟨_, fun hmem => ?_, writable_singleton_iff.2 ⟨_, hspelling⟩⟩
  have hle := List.le_sum_of_mem (List.mem_map_of_mem (f := String.length) hmem)
  rw [String.length_ofList, List.length_cons, List.length_replicate] at hle
  omega

end Token

namespace Statement

open Grammar
open Token (Writable writable_nil writable_append_iff)

variable {α β γ : Type} {us vs : List Token.Kind} {ts mid rest : List Token} {k : Token.Kind}
  {R : Rule α} {Q : Rule β} {odd : List Token.Kind → Expectation → Prop}

/-- Tokens of the kinds `us` can go on to something that a rule derives. -/
def Begins (R : Rule α) (us : List Token.Kind) : Prop := ∃ a more, R a (us ++ more) ∧ Writable more

theorem Begins.of_derived {a : α} (h : R a us) : Begins R us :=
  ⟨a, [], by rwa [List.append_nil], writable_nil⟩

theorem Begins.of_append (h : Begins R (us ++ vs)) (hv : Writable vs) : Begins R us := by
  obtain ⟨a, more, ha, hmore⟩ := h
  rw [List.append_assoc] at ha
  exact ⟨a, vs ++ more, ha, writable_append_iff.2 ⟨hv, hmore⟩⟩

/-- Behind tokens of the kinds `us` a reader keeps to a rule: all that is read until it is stuck
begins something that the rule derives, but for the `odd` cases. -/
structure KeepsTo (R : Rule α) (odd : List Token.Kind → Expectation → Prop)
    (us : List Token.Kind) (r : Reader β) : Prop where
  begins : Begins R us
  stuck : ∀ {ts x rest}, r ts = .error ⟨x, rest⟩ →
    ∃ vs, Spells vs ts rest ∧ (Begins R (us ++ vs) ∨ odd (us ++ vs) x)

def never : List Token.Kind → Expectation → Prop := fun _ _ => False

theorem KeepsTo.weaken {r : Reader β} (h : KeepsTo R never us r) : KeepsTo R odd us r := by
  refine ⟨h.begins, fun hr => ?_⟩
  obtain ⟨vs, hs, hbegins⟩ := h.stuck hr
  exact ⟨vs, hs, .inl (hbegins.resolve_right id)⟩

theorem KeepsTo.done {a : α} {b : β} (h : R a us) : KeepsTo R odd us fun ts => .ok (b, ts) :=
  ⟨.of_derived h, nofun⟩

/-- Stuck at once. -/
theorem KeepsTo.of_rest_eq {r : Reader β} (h : Begins R us)
    (hr : ∀ {ts x rest}, r ts = .error ⟨x, rest⟩ → rest = ts) : KeepsTo R odd us r := by
  refine ⟨h, fun hx => ?_⟩
  obtain rfl := hr hx
  exact ⟨[], spells_nil, .inl (by rwa [List.append_nil])⟩

theorem KeepsTo.bind {r : Reader β} {f : β × List Token → Except Stuck (γ × List Token)}
    (hsound : ∀ {ts b rest}, r ts = .ok (b, rest) → ∃ vs, Q b vs ∧ Spells vs ts rest)
    (h : KeepsTo Q (fun vs => odd (us ++ vs)) [] r)
    (hf : ∀ b vs, Q b vs → KeepsTo R odd (us ++ vs) fun ts => f (b, ts)) :
    KeepsTo R odd us fun ts => r ts >>= f := by
  constructor
  · obtain ⟨b, more, hb, hmore⟩ := h.begins
    exact (hf b more hb).begins.of_append hmore
  · intro ts x rest hx
    rcases Stuck.bind_eq_error_iff.1 hx with hr | ⟨⟨b, mid⟩, hr, hx⟩
    · obtain ⟨vs, hs, ⟨b, more, hb, hmore⟩ | hodd⟩ := h.stuck hr
      · have hbegins := (hf b _ hb).begins
        rw [List.nil_append, ← List.append_assoc] at hbegins
        exact ⟨vs, hs, .inl (hbegins.of_append hmore)⟩
      · exact ⟨vs, hs, .inr hodd⟩
    · obtain ⟨vs, hb, hs⟩ := hsound hr
      obtain ⟨ws, hs', hbegins⟩ := (hf b vs hb).stuck hx
      rw [List.append_assoc] at hbegins
      exact ⟨vs ++ ws, hs.append hs', hbegins⟩

theorem KeepsTo.after {f g : Reader β} (hf : KeepsTo R odd (us ++ [k]) f)
    (hg : KeepsTo R odd us g) :
    KeepsTo R odd us fun ts => match after? k ts with
      | some rest => f rest
      | none => g ts := by
  refine ⟨hg.begins, fun {ts x rest} hx => ?_⟩
  split at hx
  · rename_i mid hk
    obtain ⟨vs, hs, hbegins⟩ := hf.stuck hx
    rw [List.append_assoc] at hbegins
    exact ⟨[k] ++ vs, (after?_eq_some_iff.1 hk).append hs, hbegins⟩
  · exact hg.stuck hx

theorem KeepsTo.expect {f : Reader β} (hk : Writable [k]) (hf : KeepsTo R odd (us ++ [k]) f) :
    KeepsTo R odd us fun ts => Statement.expect k ts >>= f := by
  have hbegins : Begins R us := hf.begins.of_append hk
  refine ⟨hbegins, fun {ts x rest} hx => ?_⟩
  rcases Stuck.bind_eq_error_iff.1 hx with hexpect | ⟨mid, hexpect, hx⟩
  · unfold Statement.expect at hexpect
    split at hexpect
    · cases hexpect
    · cases hexpect
      exact ⟨[], spells_nil, .inl (by rwa [List.append_nil])⟩
  · obtain ⟨vs, hs, hbegins⟩ := hf.stuck hx
    rw [List.append_assoc] at hbegins
    exact ⟨[k] ++ vs, (expect_eq_ok_iff.1 hexpect).append hs, hbegins⟩

theorem identifier_sound {name : String} (h : identifier ts = .ok (name, rest)) :
    ∃ us, Name name us ∧ Spells us ts rest := ⟨_, .identifier, identifier_eq_ok_iff.1 h⟩

theorem keepsTo_identifier : KeepsTo Name odd [] identifier := by
  obtain ⟨name, -, hname⟩ := Token.writable_identifier []
  rw [identifier_eq_single]
  exact .of_rest_eq ⟨name, _, .identifier, hname⟩ single_stuck

theorem keepsTo_literal : KeepsTo Literal odd [] literal := by
  rw [literal_eq_single]
  exact .of_rest_eq ⟨.text "", _, .text, Token.writable_text⟩ single_stuck

theorem keepsTo_limit : KeepsTo Count odd [] limit := by
  have hzero : Count 0 [.number "0"] := by
    obtain ⟨hzero, hlt⟩ := Text.nat64?_eq_some_iff.1 (show Text.nat64? "0" = some 0 by decide)
    exact .number hzero hlt
  rw [limit_eq_single]
  exact .of_rest_eq ⟨0, _, hzero, Token.writable_number⟩ single_stuck

theorem keepsTo_dataType : KeepsTo DataType odd [] dataType := by
  rw [dataType_eq_single]
  exact .of_rest_eq ⟨.int, _, .int, Token.writable_keyword⟩ single_stuck

theorem keepsTo_optional {r : Reader α}
    (hsound : ∀ {ts a rest}, r ts = .ok (a, rest) → ∃ us, R a us ∧ Spells us ts rest)
    (h : KeepsTo R never [] r) : KeepsTo (Optional k R) odd [] (optional k r) := by
  refine .after ?_ (.done .absent)
  exact .bind hsound h.weaken fun a vs ha => .done (.present ha)

theorem keepsTo_column : KeepsTo ColumnEntry odd [] column := by
  refine .bind identifier_sound keepsTo_identifier fun name us hname => ?_
  cases hname
  refine .bind dataType_eq_ok_iff.1 keepsTo_dataType fun type vs htype => ?_
  refine .after (.expect Token.writable_keyword ?_) (.after ?_ ?_)
  · exact .done (by simpa using ColumnEntry.primary htype)
  · exact .done (by simpa using ColumnEntry.unique htype)
  · exact .done (by simpa using ColumnEntry.plain htype)

theorem keepsTo_join : KeepsTo Joined odd [] join := by
  refine .bind identifier_sound keepsTo_identifier fun table us htable => ?_
  refine .expect Token.writable_keyword ?_
  refine .bind identifier_sound keepsTo_identifier fun left vs hleft => ?_
  refine .expect Token.writable_equal ?_
  refine .bind identifier_sound keepsTo_identifier fun right ws hright => ?_
  cases htable
  cases hleft
  cases hright
  exact .done .mk

theorem keepsTo_absence : KeepsTo Absence odd [] absence :=
  .expect Token.writable_keyword (.expect Token.writable_keyword (.done .mk))

theorem join_sound {j : Join} (h : join ts = .ok (j, rest)) :
    ∃ us, Joined j us ∧ Spells us ts rest := by
  have hreads : Reads join Joined [] := reads_join
  exact hreads.sound h

theorem absence_sound {u : Unit} (h : absence ts = .ok (u, rest)) :
    ∃ us, Absence u us ∧ Spells us ts rest := by
  have hreads : Reads absence Absence [] := reads_absence
  exact hreads.sound h

inductive Heads {α : Type} (item : Rule α) : Rule (List α)
  | nil : Heads item [] []
  | cons {x us xs vs} (h : item x us) (hs : Heads item xs vs) :
    Heads item (x :: xs) (us ++ .comma :: vs)

theorem Heads.series {xs ys : List α} (h : Heads R xs us) (hs : Series R ys vs) :
    Series R (xs ++ ys) (us ++ vs) := by
  induction h with
  | nil => exact hs
  | @cons x us xs vs' hx _ ih =>
    rw [List.cons_append, List.append_assoc, List.cons_append]
    exact .more hx ih

variable {item : List α → Reader α} {may : List α → α → Prop} {no : List Token.Kind}
  {done : List α}

/-- A list is stuck at an item, with items and commas in front of it. -/
theorem itemsFrom_stuck
    (hsound : ∀ done {ts x rest}, item done ts = .ok (x, rest) →
      ∃ us, (R x us ∧ may done x) ∧ Spells us ts rest)
    {n : Nat} {s : Stuck} (hs : itemsFrom item n done ts = .error s) :
    ∃ ys us mid, Heads R ys us ∧ Fits may done ys ∧ Spells us ts mid ∧
      item (done ++ ys) mid = .error s := by
  induction n generalizing done ts with
  | zero => cases hs
  | succ n ih =>
    rcases Stuck.bind_eq_error_iff.1 hs with hitem | ⟨⟨x, mid⟩, hitem, hs⟩
    · refine ⟨[], [], ts, .nil, trivial, spells_nil, ?_⟩
      rwa [List.append_nil]
    · obtain ⟨us, ⟨hx, hmay⟩, hus⟩ := hsound done hitem
      dsimp only at hs
      split at hs
      · rename_i more hk
        obtain ⟨ys, vs, mid', hys, hfits, hvs, hstuck⟩ := ih hs
        refine ⟨x :: ys, us ++ .comma :: vs, mid', .cons hx hys, ⟨hmay, hfits⟩, ?_, ?_⟩
        · exact hus.append ((after?_eq_some_iff.1 hk).cons hvs)
        · rwa [List.append_assoc] at hstuck
      · cases hs

/-- Reading a list goes past items that have a comma behind them. -/
theorem itemsFrom_heads (h : ∀ done, Reads (item done) (fun x us => R x us ∧ may done x) no)
    (hno : .comma ∉ no) {n : Nat} {ys : List α} (hn : ts.length < n) (hys : Heads R ys us)
    (hfits : Fits may done ys) (hs : Spells us ts mid) :
    ∃ m, mid.length < m ∧ itemsFrom item n done ts = itemsFrom item m (done ++ ys) mid := by
  induction hys generalizing n done ts with
  | nil =>
    obtain rfl := spells_nil_iff.1 hs
    exact ⟨n, hn, by rw [List.append_nil]⟩
  | @cons x us ys vs hx _ ih =>
    obtain ⟨ts₁, hus, hs⟩ := spells_append_iff.1 hs
    obtain ⟨ts₂, hcomma, hvs⟩ := spells_cons_iff.1 hs
    have hitem := (h done).complete ⟨hx, hfits.1⟩ hus (.of_spells hs hno)
    have hle := hus.length_eq
    have hlt := hcomma.length_eq
    rw [List.length_singleton] at hlt
    cases n with
    | zero => omega
    | succ n =>
      obtain ⟨m, hm, hsame⟩ := ih (by omega : ts₂.length < n) hfits.2 hvs
      refine ⟨m, hm, ?_⟩
      rw [itemsFrom, hitem, ← List.singleton_append, ← List.append_assoc, ← hsame]
      simp only [bind, Except.bind, after?_eq_some_iff.2 hcomma]

theorem keepsTo_series {r : Reader α}
    (hsound : ∀ {ts a rest}, r ts = .ok (a, rest) → ∃ us, R a us ∧ Spells us ts rest)
    (h : KeepsTo R never [] r) : KeepsTo (Series R) odd [] (items fun _ => r) := by
  have hitem : ∀ (_ : List α) {ts x rest}, r ts = .ok (x, rest) →
      ∃ us, (R x us ∧ True) ∧ Spells us ts rest := by
    intro _ ts x rest hx
    simpa using hsound hx
  constructor
  · obtain ⟨x, more, hx, hmore⟩ := h.begins
    exact ⟨[x], more, .one hx, hmore⟩
  · intro ts x rest hx
    obtain ⟨ys, us, mid, hys, -, hus, hstuck⟩ := itemsFrom_stuck hitem hx
    obtain ⟨vs, hvs, hbegins⟩ := h.stuck hstuck
    obtain ⟨y, more, hy, hmore⟩ := hbegins.resolve_right id
    refine ⟨us ++ vs, hus.append hvs, .inl ⟨ys ++ [y], more, ?_, hmore⟩⟩
    rw [List.nil_append, List.append_assoc]
    exact hys.series (.one hy)

theorem keepsTo_selection : KeepsTo Choice odd [] selection := by
  have hnames : Reads names (Series Name) [.comma] :=
    reads_series reads_identifier List.not_mem_nil
  have hkeeps : KeepsTo (Series Name) odd [] names :=
    keepsTo_series identifier_sound keepsTo_identifier
  exact .after (.done .all) (.bind hnames.sound hkeeps fun columns us h => .done (.named h))

def Unseen (seen : List String) : Rule (String × Value) := fun e us => Equation e us ∧ e.1 ∉ seen

variable {seen : List String} {column : String}

/-- Behind a name that is not of these, only the tokens matter. -/
theorem keepsTo_unseen (h : column ∉ seen) : KeepsTo (Unseen seen) never [.identifier column]
    fun ts => expect .equal ts >>= fun ts => literal ts >>= fun y => .ok ((column, y.1), y.2) := by
  refine .expect Token.writable_equal ?_
  refine .bind literal_eq_ok_iff.1 keepsTo_literal fun value us hvalue => ?_
  dsimp only
  exact .done (a := (column, value)) ⟨.mk hvalue, h⟩

theorem begins_unseen (seen : List String) : Begins (Unseen seen) [] := by
  obtain ⟨column, hseen, hcolumn⟩ := Token.writable_identifier seen
  exact (keepsTo_unseen hseen).begins.of_append hcolumn

/-- An equation is stuck behind a name that was seen before; anywhere else it is the token that
is wrong. -/
theorem equation_stuck {x : Expectation} (h : equation seen ts = .error ⟨x, rest⟩) :
    (∃ column ∈ seen, x = .unassigned column ∧ Spells [.identifier column] ts rest) ∨
      ∃ vs, Spells vs ts rest ∧ Begins (Unseen seen) vs := by
  rcases Stuck.bind_eq_error_iff.1 h with hname | ⟨⟨column, mid⟩, hname, h⟩
  · rw [identifier_eq_single] at hname
    obtain rfl := single_stuck hname
    exact .inr ⟨[], spells_nil, begins_unseen seen⟩
  · have hname := identifier_eq_ok_iff.1 hname
    by_cases hseen : column ∈ seen
    · simp only [hseen, if_true] at h
      cases h
      exact .inl ⟨column, hseen, rfl, hname⟩
    · simp only [hseen, if_false] at h
      obtain ⟨vs, hs, hbegins⟩ := (keepsTo_unseen hseen).stuck h
      exact .inr ⟨_, hname.append hs, hbegins.resolve_right id⟩

theorem equation_seen (h : column ∈ seen) (hs : Spells [.identifier column] ts rest) :
    equation seen ts = .error ⟨.unassigned column, rest⟩ := by
  simp only [equation, identifier_eq_ok_iff.2 hs, bind, Except.bind, h, if_true]
  rfl

theorem keepsTo_equation : KeepsTo Equation odd [] (equation []) := by
  have hunseen : ∀ {us}, Begins (Unseen []) us → Begins Equation us := by
    rintro us ⟨e, more, he, hmore⟩
    exact ⟨e, more, he.1, hmore⟩
  refine ⟨hunseen (begins_unseen []), fun h => ?_⟩
  rcases equation_stuck h with ⟨column, hmem, -⟩ | ⟨vs, hs, hbegins⟩
  · cases hmem
  · exact ⟨vs, hs, .inl (hunseen hbegins)⟩

/-- A column is named again behind assignments, each with a comma behind it. -/
inductive NamedAgain : List Token.Kind → Expectation → Prop
  | mk {changes us column} (h : Heads Equation changes us) (hd : (changes.map Prod.fst).Nodup)
    (hc : column ∈ changes.map Prod.fst) :
    NamedAgain (us ++ [.identifier column]) (.unassigned column)

def Distinct : Rule (List (String × Value)) := fun changes us =>
  Series Equation changes us ∧ (changes.map Prod.fst).Nodup

theorem Heads.begins {done : List (String × Value)} (h : Heads Equation done us)
    (hd : (done.map Prod.fst).Nodup) (hbegins : Begins (Unseen (done.map Prod.fst)) vs) :
    Begins Distinct (us ++ vs) := by
  obtain ⟨e, more, ⟨he, hseen⟩, hmore⟩ := hbegins
  refine ⟨done ++ [e], more, ⟨?_, ?_⟩, hmore⟩
  · rw [List.append_assoc]
    exact h.series (.one he)
  · exact (fits_distinct hd).1 ⟨hseen, trivial⟩

theorem keepsTo_assignments : KeepsTo Distinct NamedAgain [] assignments := by
  refine ⟨Heads.nil.begins List.nodup_nil (begins_unseen _), fun {ts x rest} h => ?_⟩
  obtain ⟨done, us, mid, hdone, hfits, hus, hstuck⟩ :=
    itemsFrom_stuck (fun done => (reads_unseen done).sound) h
  rw [fits_distinct (by simp), List.nil_append] at hfits
  rw [List.nil_append] at hstuck
  rcases equation_stuck hstuck with ⟨column, hseen, rfl, hs⟩ | ⟨vs, hs, hbegins⟩
  · exact ⟨_, hus.append hs, .inr (.mk hdone hfits hseen)⟩
  · have hbegins := hdone.begins hfits hbegins
    exact ⟨us ++ vs, hus.append hs, .inl hbegins⟩

theorem KeepsTo.connective {f : Condition.Connective → Reader β} {g : Reader β}
    (hf : ∀ op, KeepsTo R odd (us ++ [connectiveKind op]) (f op)) (hg : KeepsTo R odd us g) :
    KeepsTo R odd us fun ts => match connective? ts with
      | some (op, rest) => f op rest
      | none => g ts := by
  refine ⟨hg.begins, fun {ts x rest} hx => ?_⟩
  split at hx
  · rename_i op mid hop
    obtain ⟨vs, hs, hbegins⟩ := (hf op).stuck hx
    rw [List.append_assoc] at hbegins
    exact ⟨_, (connective?_eq_some_iff.1 hop).append hs, hbegins⟩
  · exact hg.stuck hx

theorem equation_sound {e : String × Value} (h : equation [] ts = .ok (e, rest)) :
    ∃ us, Equation e us ∧ Spells us ts rest := (equation_eq_ok_iff.1 h).1

theorem keepsTo_chainFrom (n : Nat) : KeepsTo Chain odd [] (chainFrom n) := by
  induction n generalizing odd with
  | zero => exact .done .nil
  | succ n ih =>
    rw [funext (chainFrom_succ n)]
    refine .connective (fun op => ?_) (.done .nil)
    refine .bind equation_sound keepsTo_equation fun e us he => ?_
    dsimp only
    refine .bind chainFrom_sound ih fun l vs hl => ?_
    dsimp only
    exact .done (.cons (.equation he) hl)

theorem keepsTo_condition : KeepsTo Disjunction odd [] condition := by
  have hstart : KeepsTo Chain never [] (chainFrom 0) := keepsTo_chainFrom 0
  have hchain : KeepsTo Chain never [] fun ts => chainFrom ts.length ts :=
    ⟨hstart.begins, fun h => (keepsTo_chainFrom _).stuck h⟩
  refine .bind equation_sound keepsTo_equation fun e us he => ?_
  refine .bind chainFrom_sound hchain.weaken fun l vs hl => ?_
  exact .done (disjunction_iff.2 ⟨_, _, _, _, .equation he, hl, rfl, rfl⟩)

theorem keepsTo_selectBody : KeepsTo Derives odd [.keyword .select] selectBody := by
  refine .bind reads_selection.sound keepsTo_selection fun chosen us hu => ?_
  refine .expect Token.writable_keyword ?_
  refine .bind identifier_sound keepsTo_identifier fun table name hname => ?_
  cases hname
  refine .bind reads_joinPart.sound
    (keepsTo_optional join_sound keepsTo_join) fun joined vs hv => ?_
  refine .bind reads_conditionPart.sound
    (keepsTo_optional reads_condition.sound keepsTo_condition) fun cond ws hw => ?_
  refine .bind reads_limitPart.sound
    (keepsTo_optional limit_eq_ok_iff.1 keepsTo_limit) fun most xs hx => ?_
  dsimp only
  refine .done (a := .select ⟨chosen, table, joined, cond, most⟩) ?_
  simpa using Derives.select hu hv hw hx

theorem keepsTo_insertBody : KeepsTo Derives odd [.keyword .insert] insertBody := by
  refine .expect Token.writable_keyword ?_
  refine .bind identifier_sound keepsTo_identifier fun table name hname => ?_
  cases hname
  refine .expect Token.writable_keyword (.expect Token.writable_leftParen ?_)
  refine .bind reads_literals.sound (keepsTo_series literal_eq_ok_iff.1 keepsTo_literal)
    fun row us hu => ?_
  refine .expect Token.writable_rightParen (.done (a := .insert table row) ?_)
  simpa using Derives.insert hu

theorem keepsTo_deleteBody : KeepsTo Derives odd [.keyword .delete] deleteBody := by
  refine .expect Token.writable_keyword ?_
  refine .bind identifier_sound keepsTo_identifier fun table name hname => ?_
  cases hname
  refine .expect Token.writable_keyword ?_
  refine .bind reads_condition.sound keepsTo_condition fun cond us hu => ?_
  refine .done (a := .delete table cond) ?_
  simpa using Derives.delete hu

theorem keepsTo_createBody : KeepsTo Derives odd [.keyword .create] createBody := by
  refine .expect Token.writable_keyword ?_
  refine .bind reads_absencePart.sound (keepsTo_optional absence_sound keepsTo_absence)
    fun clause us hu => ?_
  refine .bind identifier_sound keepsTo_identifier fun table name hname => ?_
  cases hname
  refine .expect Token.writable_leftParen ?_
  refine .bind reads_columns.sound (keepsTo_series reads_column.sound keepsTo_column)
    fun cols vs hv => ?_
  refine .expect Token.writable_rightParen (.done (a := .create table cols clause.isSome) ?_)
  simpa using Derives.create hu hv

/-- Behind the tokens `us` of an update a column is named that one of its assignments has. -/
def Reassigns (us : List Token.Kind) (column : String) : Prop :=
  ∃ table changes vs, us = .keyword .update :: .identifier table :: .keyword .set :: vs ∧
    Heads Equation changes vs ∧ (changes.map Prod.fst).Nodup ∧ column ∈ changes.map Prod.fst

theorem begins_update {table : String} (h : Begins Distinct us) :
    Begins Derives (.keyword .update :: .identifier table :: .keyword .set :: us) := by
  obtain ⟨changes, more, ⟨hchanges, hd⟩, hmore⟩ := h
  have hcondition : KeepsTo Disjunction never [] condition := keepsTo_condition
  obtain ⟨cond, ws, hcond, hws⟩ := hcondition.begins
  have hwhere : Writable (.keyword .where :: ws) :=
    writable_append_iff.2 ⟨Token.writable_keyword, hws⟩
  refine ⟨.update table changes cond, _, ?_, writable_append_iff.2 ⟨hmore, hwhere⟩⟩
  simpa using Derives.update hchanges hd hcond

theorem Reassigns.begins (h : Reassigns us column) : Begins Derives us := by
  obtain ⟨table, changes, vs, rfl, hheads, hd, -⟩ := h
  have hbegins := hheads.begins hd (begins_unseen _)
  rw [List.append_nil] at hbegins
  exact begins_update hbegins

inductive Reassigned : List Token.Kind → Expectation → Prop
  | mk {us : List Token.Kind} {column : String} (h : Reassigns us column) :
    Reassigned (us ++ [.identifier column]) (.unassigned column)

theorem keepsTo_updateBody : KeepsTo Derives Reassigned [.keyword .update] updateBody := by
  refine .bind identifier_sound keepsTo_identifier fun table name hname => ?_
  cases hname
  refine .expect Token.writable_keyword ?_
  have hassignments : KeepsTo Distinct (fun vs => Reassigned
      ([.keyword .update, .identifier table, .keyword .set] ++ vs)) [] assignments := by
    refine ⟨keepsTo_assignments.begins, fun h => ?_⟩
    obtain ⟨vs, hs, hbegins | hagain⟩ := keepsTo_assignments.stuck h
    · exact ⟨vs, hs, .inl hbegins⟩
    · refine ⟨vs, hs, .inr ?_⟩
      rw [List.nil_append] at hagain
      obtain ⟨hheads, hd, hc⟩ := hagain
      exact Reassigned.mk ⟨table, _, _, rfl, hheads, hd, hc⟩
  refine .bind reads_assignments.sound hassignments fun changes us hu => ?_
  refine .expect Token.writable_keyword ?_
  refine .bind reads_condition.sound keepsTo_condition fun cond vs hv => ?_
  refine .done (a := .update table changes cond) ?_
  simpa using Derives.update hu.1 hu.2 hv

theorem keepsTo_statement : KeepsTo Derives Reassigned [] statement := by
  have hdelete : KeepsTo Derives Reassigned [.keyword .delete] deleteBody := keepsTo_deleteBody
  have hbegins : Begins Derives [] := hdelete.begins.of_append Token.writable_keyword
  rw [statement_eq]
  refine keepsTo_selectBody.after <| keepsTo_insertBody.after <| keepsTo_updateBody.after <|
    keepsTo_deleteBody.after <| keepsTo_createBody.after <| .of_rest_eq hbegins ?_
  intro ts x rest h
  exact (error_eq_ends.1 h.symm).2.symm

/-- Where a list of tokens is stuck, the tokens in front begin a statement, or else a column was
named again just there. -/
theorem whole_begins {x : Expectation} (h : whole ts = .error ⟨x, rest⟩) :
    ∃ us, Spells us ts rest ∧ (Begins Derives us ∨ Reassigned us x) := by
  rcases Stuck.bind_eq_error_iff.1 h with h | ⟨⟨s, mid⟩, hs, h⟩
  · exact keepsTo_statement.stuck h
  · obtain ⟨us, hderives, hus⟩ := statement_sound hs
    dsimp only at h
    split at h
    · cases h
    · cases h
      exact ⟨us, hus, .inl (.of_derived hderives)⟩

/-- A column that is named again is what a list of tokens is stuck at, right behind its name. -/
theorem whole_reassigned {us : List Token.Kind} {column : String} (h : Reassigns us column)
    (hs : Spells (us ++ [.identifier column]) ts rest) :
    whole ts = .error ⟨.unassigned column, rest⟩ := by
  obtain ⟨table, changes, vs, rfl, hheads, hd, hc⟩ := h
  obtain ⟨ts₃, hall, hcolumn⟩ := spells_append_iff.1 hs
  obtain ⟨ts₀, hupdate, hbody⟩ := spells_cons_iff.1 hall
  obtain ⟨p, rfl⟩ := spells_singleton_iff.1 hupdate
  obtain ⟨ts₁, htable, hbehind⟩ := spells_cons_iff.1 hbody
  obtain ⟨ts₂, hset, hvs⟩ := spells_cons_iff.1 hbehind
  have hfits : Fits (fun done e => e.1 ∉ done.map Prod.fst) [] changes :=
    (fits_distinct (by simp)).2 hd
  obtain ⟨n, hn, hsame⟩ :=
    itemsFrom_heads reads_unseen List.not_mem_nil (Nat.lt_succ_self _) hheads hfits hvs
  have hassignments : assignments ts₂ = .error ⟨.unassigned column, rest⟩ := by
    refine hsame.trans ?_
    cases n with
    | zero => omega
    | succ n =>
      rw [itemsFrom, List.nil_append, equation_seen hc hcolumn]
      rfl
  have hstatement :
      statement (⟨.keyword .update, p⟩ :: ts₀) = .error ⟨.unassigned column, rest⟩ := by
    show updateBody ts₀ = _
    simp only [updateBody, identifier_eq_ok_iff.2 htable, expect_eq_ok_iff.2 hset, hassignments,
      bind, Except.bind]
  exact Stuck.bind_eq_error_iff.2 (.inl hstatement)

end Statement
end RelStore
