import RelStore.Proofs.Database.Coherent
import RelStore.Proofs.Database.Found
import RelStore.Proofs.Disk.Failure
import RelStore.Proofs.Document.Valid

/-! The invariant of a database whose table files were all written by databases, though others
may put files into the directory, take them away and put them back. A table in memory need not
have a file. -/
namespace RelStore

namespace Disk

/-- The documents in a directory are those of tables with names, and there is nothing in a
directory that is not there. -/
structure Authored (d : Disk) : Prop where
  rooted : d.node? [] = none → ∀ p, d.node? p = none
  named : ∀ p bytes doc, d.node? p = some (.file bytes) → Document.decode? bytes = some doc →
    Database.isName doc.name = true

end Disk

namespace Database
variable {d d' : Disk} {settings : Settings} {db : Database} {name : String} {t u : Table}
  {s : Schema}

/-- Where all documents are those of tables with names, a table is read from the file of its
name in the directory itself. -/
theorem readTable_iff (h : d.Authored) : readTable settings d name = .ok t ↔
    Disk.IsDirect (tableFile name) ∧ isName name = true ∧ d.node? [] = some .folder ∧ ∃ bytes doc,
      d.node? [tableFile name] = some (.file bytes) ∧ Document.decode? bytes = some doc ∧
      doc.toTable (settings.tablePath name) name = .ok t := by
  rw [readTable_eq_ok_iff]
  constructor
  · rintro ⟨bytes, doc, hfind, hdoc, ht⟩
    obtain ⟨rows, hvalid, -⟩ := Document.valid_of_toTable ht
    obtain ⟨p, hp⟩ := Disk.node?_of_find hfind
    have hname : isName name = true := hvalid.named ▸ h.named p bytes doc hp hdoc
    have hdirect := (isPlain_tableFile hname).direct_of_find hfind
    obtain ⟨hroot, hfile⟩ := hdirect.node?_of_find hfind
    exact ⟨hdirect, hname, hroot, bytes, doc, hfile, hdoc, ht⟩
  · rintro ⟨hdirect, -, hroot, bytes, doc, hfile, hdoc, ht⟩
    refine ⟨bytes, doc, ?_, hdoc, ht⟩
    rw [hdirect.find hroot, hfile]

theorem readTable_congr (h : d.Authored) (h' : d'.Authored) (hroot : Disk.SameRoot d d')
    (hfile : d'.node? [tableFile name] = d.node? [tableFile name]) :
    readTable settings d' name = .ok t ↔ readTable settings d name = .ok t := by
  rw [readTable_iff h, readTable_iff h', hfile]
  refine and_congr_right fun _ => and_congr_right fun _ =>
    and_congr_left fun ⟨bytes, doc, hbytes, _⟩ => ?_
  rcases hroot with hroot | ⟨hnone, -⟩
  · rw [hroot]
  · rw [h.rooted hnone] at hbytes
    cases hbytes

theorem lasting_of_readTable (h : d.Authored) (hr : readTable settings d name = .ok t) :
    Lasting t ∧ t.name = name := by
  obtain ⟨hdirect, hname, -, bytes, doc, -, -, ht⟩ := (readTable_iff h).1 hr
  obtain ⟨rows, hvalid, hsound, hschema, -⟩ := Document.valid_of_toTable ht
  have hcheck : t.schema.check = .ok () := hschema ▸ Document.check_schema_iff.2
    ⟨hvalid.columns, hvalid.nodup, hvalid.primary, hvalid.foreignKeys⟩
  have hn := hsound.named
  exact ⟨⟨hsound.sound, hcheck, hn ▸ hname, hn ▸ hdirect.short⟩, hn⟩

theorem readTable_saved (hroot : d.node? [] = some .folder) (hu : Lasting u)
    (hfile : d.node? [tableFile u.name] = some (.file (Document.ofTable u).encode)) :
    readTable settings d u.name = .ok u := by
  have hfind : d.find (tableFile u.name) = .node (.file (Document.ofTable u).encode) := by
    rw [hu.direct.find hroot, hfile]
  rw [readTable_of_find hfind, Document.toTable_ofTable hu.sound hu.checked]

structure Tended (db : Database) : Prop where
  authored : db.disk.Authored
  loaded : ∀ name t, db.loaded.lookup name = some t → Lasting t ∧ t.name = name

theorem Tended.lasting (h : db.Tended) (hf : db.found name = .ok t) :
    Lasting t ∧ t.name = name := by
  cases hl : db.loaded.lookup name with
  | some u =>
    obtain rfl : u = t := Except.ok.inj ((found_of_lookup hl).symm.trans hf)
    exact h.loaded name u hl
  | none => exact lasting_of_readTable h.authored ((found_of_lookup_eq_none hl).symm.trans hf)

theorem tended_fresh (settings : Settings) (h : d.Authored) :
    Tended ⟨settings, [], d, []⟩ := ⟨h, nofun⟩

def Agrees (db : Database) : Prop :=
  ∀ name t u, db.found name = .ok t → ((load name).run.run db).1 = .ok u → u.schema = t.schema

theorem found_of_load (hu : ((load name).run.run db).1 = .ok u) : ∃ t, db.found name = .ok t := by
  cases hl : db.loaded.lookup name with
  | some t => exact ⟨t, found_of_lookup hl⟩
  | none => exact ⟨u, (found_of_lookup_eq_none hl).trans ((fst_run_load name db).symm.trans hu)⟩

theorem agrees_of_loaded (h : db.loaded = []) : Agrees db := by
  intro name t u ht hu
  have hnone : db.loaded.lookup name = none := by rw [h]; rfl
  rw [found_of_lookup_eq_none hnone] at ht
  rw [fst_run_load] at hu
  rw [Except.ok.inj (hu.symm.trans ht)]

end Database
end RelStore
