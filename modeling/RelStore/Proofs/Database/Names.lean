import Mathlib.Data.List.Sort
import RelStore.Proofs.Database.Coherent

/-! The names of the tables: they are those of the files, whatever is in memory. -/
namespace RelStore

namespace Text

/-- Names in order, no two the same. -/
def Rising (names : List String) : Prop := names.Pairwise fun m n => before m n = true

theorem rising_insertName {name : String} {names : List String} (h : Rising names) :
    Rising (insertName name names) := by
  induction names with
  | nil => exact List.pairwise_singleton _ _
  | cons n rest ih =>
    obtain ⟨hn, hrest⟩ := List.pairwise_cons.1 h
    rw [insertName]
    by_cases hbefore : before name n = true
    · rw [if_pos hbefore]
      apply List.pairwise_cons.2
      refine ⟨?_, h⟩
      intro m hm
      rcases List.mem_cons.1 hm with rfl | hm
      · exact hbefore
      · exact before_trans hbefore (hn m hm)
    · rw [if_neg hbefore]
      by_cases hname : name = n
      · rw [if_pos hname]
        exact h
      · rw [if_neg hname]
        apply List.pairwise_cons.2
        refine ⟨?_, ih hrest⟩
        intro m hm
        rcases mem_insertName.1 hm with rfl | hm
        · -- of two names that differ one is before the other
          by_contra hnot
          have hnm : before n m = false := by simpa using hnot
          have hmn : before m n = false := by simpa using hbefore
          exact hname (eq_of_not_before hmn hnm)
        · exact hn m hm

theorem rising_sortNames (names : List String) : Rising (sortNames names) := by
  induction names with
  | nil => exact List.Pairwise.nil
  | cons n rest ih => exact rising_insertName ih

theorem sortNames_congr {xs ys : List String} (h : ∀ n, n ∈ xs ↔ n ∈ ys) :
    sortNames xs = sortNames ys := by
  let r : String → String → Prop := fun m n => before m n = true
  have hirrefl : Std.Irrefl r := ⟨fun m hm => by
    have hmm := before_irrefl m
    rw [show before m m = true from hm] at hmm
    cases hmm⟩
  have hantisymm : Std.Antisymm r := ⟨fun m n hmn hnm => by
    exact absurd (before_trans hmn hnm) (hirrefl.irrefl m)⟩
  apply List.Pairwise.eq_of_mem_iff (r := r) (rising_sortNames xs) (rising_sortNames ys)
  intro n
  rw [mem_sortNames, mem_sortNames]
  exact h n

end Text

namespace Disk

theorem mem_names_iff {d : Disk} {file : String} :
    file ∈ d.names ↔ isEntry file = true ∧ ∃ n, d.node? [file] = some n := by
  constructor
  · intro h
    obtain ⟨⟨p, n⟩, he, hp⟩ := List.mem_filterMap.1 h
    split at hp
    · rename_i name hname
      split at hp
      · rename_i hentry
        cases hp
        have hsome : (d.nodes.lookup [file]).isSome = true :=
          List.lookup_isSome_iff.2 ⟨_, he, beq_iff_eq.2 hname.symm⟩
        exact ⟨hentry, Option.isSome_iff_exists.1 hsome⟩
      · cases hp
    · cases hp
  · rintro ⟨hentry, n, hn⟩
    obtain ⟨before, after, hl, -⟩ := List.lookup_eq_some_iff.1 hn
    refine List.mem_filterMap.2 ⟨([file], n), ?_, if_pos hentry⟩
    rw [hl]
    simp

end Disk

namespace Database
variable {db : Database} {name : String}

/-- A file belongs to the table before the ending `.json`, unless that is nothing or marked as
temporary. -/
theorem tableOfFile?_eq_some_iff {file : String} : tableOfFile? file = some name ↔
    file = tableFile name ∧ name.toList ≠ [] ∧ ¬ Disk.temporaryMark.toList <+: name.toList := by
  have hprefix : ∀ cs : List Char, Disk.temporaryMark.toList.isPrefixOf cs = false ↔
      ¬ Disk.temporaryMark.toList <+: cs := fun cs => by
    rw [← Bool.not_eq_true, List.isPrefixOf_iff_prefix]
  unfold tableOfFile?
  simp only [Option.ite_none_right_eq_some, Option.some.injEq, Bool.not_eq_eq_eq_not,
    Bool.not_true, hprefix]
  constructor
  · rintro ⟨⟨-, hending, hstem, hmark⟩, rfl⟩
    rw [String.toList_ofList]
    refine ⟨String.toList_inj.1 ?_, hstem, hmark⟩
    have hwhole := List.takeWhile_append_dropWhile (p := (· != '.')) (l := file.toList.reverse)
    rw [hending] at hwhole
    cases hdrop : file.toList.reverse.dropWhile (· != '.') with
    | nil => simp [hdrop] at hstem
    | cons c rest =>
      have hc : c = '.' := by
        have hhead := List.head?_dropWhile_not (· != '.') file.toList.reverse
        simpa [hdrop] using hhead
      rw [hdrop, hc] at hwhole
      rw [toList_tableFile, String.toList_ofList, ← List.reverse_reverse file.toList, ← hwhole]
      simp
  · rintro ⟨rfl, hne, hmark⟩
    have hrev : (tableFile name).toList.reverse =
        ['n', 'o', 's', 'j', '.'] ++ name.toList.reverse := by
      rw [toList_tableFile, List.reverse_append]
      rfl
    have hstem : (((tableFile name).toList.reverse.dropWhile (· != '.')).drop 1).reverse =
        name.toList := by
      rw [hrev]
      simp
    rw [hstem]
    refine ⟨⟨?_, ?_, hne, hmark⟩, String.ofList_toList⟩
    · rw [hrev]
      simp
    · rw [hrev]
      simp

theorem tableOfFile?_tableFile (h : isName name = true) :
    tableOfFile? (tableFile name) = some name := by
  refine tableOfFile?_eq_some_iff.2 ⟨rfl, isName_ne_nil h, fun hp => ?_⟩
  exact not_mem_of_isName h (c := '-') (by decide) (hp.subset (by decide))

theorem Coherent.fileNames (h : db.Coherent) :
    db.fileNames = .ok (Text.sortNames (db.disk.names.filterMap tableOfFile?)) := by
  rw [Database.fileNames, h.clean.root]

theorem mem_loaded_iff : name ∈ db.loaded.map (·.1) ↔ (db.loaded.lookup name).isSome = true := by
  rw [List.lookup_isSome_iff, List.mem_map]
  constructor
  · rintro ⟨e, he, rfl⟩
    exact ⟨e, he, beq_self_eq_true e.1⟩
  · rintro ⟨e, he, hname⟩
    exact ⟨e, he, (beq_iff_eq.1 hname).symm⟩

theorem Coherent.tableNames (h : db.Coherent) : db.tableNames = db.fileNames := by
  rw [Database.tableNames, h.fileNames]
  refine congrArg Except.ok (Text.sortNames_congr ?_)
  intro n
  rw [List.mem_append, Text.mem_sortNames, mem_loaded_iff]
  constructor
  · rintro (hn | hn)
    · exact hn
    · obtain ⟨t, ht⟩ := Option.isSome_iff_exists.1 hn
      obtain ⟨hname, ht, hd⟩ := h.loaded n t ht
      rw [← hname]
      exact List.mem_filterMap.2
        ⟨_, Disk.mem_names_iff.2 ⟨ht.direct.entry, _, hd⟩, tableOfFile?_tableFile ht.named⟩
  · exact Or.inl

end Database
end RelStore
