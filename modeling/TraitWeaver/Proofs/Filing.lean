import TraitWeaver.Generator
import TraitWeaver.Proofs.SortedMap

/-!
# What a filer keeps

A filer may be anything that creates or refuses files, but nothing is to be
expected of generated files unless it *keeps* them: what it creates is there
afterwards, under a name that nothing had, and no other file notices. Which files
it refuses is left open, and it may refuse one now and take it later.

All that matters of such a filer is what can be read from it, a text for each
name. Handing it a list of files then has two outcomes: they are all there and
nothing else is new (`Created`), or one was refused, and the same holds of those
before it.
-/

namespace TraitWeaver

/-- What can be read from a place for files: the text of each file, by its name. -/
abbrev Contents : Type := String → Option String

namespace Contents

/-- No file is lost, and none is changed. -/
def Extends (before after : Contents) : Prop :=
  ∀ name text, before name = some text → after name = some text

theorem Extends.refl (c : Contents) : Extends c c := fun _ _ h => h

theorem Extends.trans {a b c : Contents} (h : Extends a b) (h' : Extends b c) : Extends a c :=
  fun name text ha => h' name text (h name text ha)

/-- Some files are new, and they are all that is. -/
structure Created (before after : Contents) (files : List SourceFile) : Prop where
  /-- No two of them have one name. -/
  distinct : (files.map (·.name)).Nodup
  /-- Their names were free. -/
  free : ∀ f ∈ files, before f.name = none
  /-- They have their texts. -/
  written : ∀ f ∈ files, after f.name = some f.text
  /-- Under every other name there is what was there before. -/
  others : ∀ name, name ∉ files.map (·.name) → after name = before name

theorem Created.nil {before after : Contents} (h : ∀ name, after name = before name) :
    Created before after [] where
  distinct := List.nodup_nil
  free := fun _ hf => absurd hf List.not_mem_nil
  written := fun _ hf => absurd hf List.not_mem_nil
  others := fun name _ => h name

theorem Created.cons {before between after : Contents} {file : SourceFile}
    {files : List SourceFile} (hfree : before file.name = none)
    (hfile : ∀ name, between name = if name = file.name then some file.text else before name)
    (h : Created between after files) : Created before after (file :: files) := by
  have hwritten : between file.name = some file.text := by rw [hfile, if_pos rfl]
  -- the file is there already, so none of the rest can be created under its name
  have hnew : file.name ∉ files.map (·.name) := by
    intro hm
    obtain ⟨f, hf, he⟩ := List.mem_map.mp hm
    have := h.free f hf
    rw [he, hwritten] at this
    cases this
  refine ⟨List.nodup_cons.mpr ⟨hnew, h.distinct⟩, ?_, ?_, ?_⟩
  · intro f hf
    rcases List.mem_cons.mp hf with rfl | hf
    · exact hfree
    · have hne : f.name ≠ file.name := fun he => hnew (he ▸ List.mem_map_of_mem hf)
      have := h.free f hf
      rwa [hfile, if_neg hne] at this
  · intro f hf
    rcases List.mem_cons.mp hf with rfl | hf
    · rw [h.others _ hnew, hwritten]
    · exact h.written f hf
  · intro name hname
    rw [List.map_cons, List.mem_cons, not_or] at hname
    rw [h.others name hname.2, hfile, if_neg hname.1]

theorem Created.extends {before after : Contents} {files : List SourceFile}
    (h : Created before after files) : Extends before after := by
  intro name text hname
  rw [h.others name, hname]
  intro hm
  obtain ⟨f, hf, rfl⟩ := List.mem_map.mp hm
  rw [h.free f hf] at hname
  cases hname

end Contents

open Contents

/-- A filer that keeps its files. -/
structure Filer.Keeps {σ : Type} (filer : Filer (StateM σ)) (read : σ → Contents) : Prop where
  /-- A file is created under a free name, and is all that is new. -/
  created : ∀ file s s', (filer.create file).run s = (.ok (), s') →
    read s file.name = none
      ∧ ∀ name, read s' name = if name = file.name then some file.text else read s name
  /-- Refusing a file changes no file. -/
  refused : ∀ file s s' fault, (filer.create file).run s = (.error fault, s') →
    ∀ name, read s' name = read s name

/-! ## Files in memory -/

namespace Memory

variable {refused : String → Option FileFault}

/-- **A file is put into memory exactly if its name is neither refused nor taken.** -/
theorem run_filer_create (file : SourceFile) (files : Memory) :
    ((filer refused).create file).run files =
      match refused file.name with
      | some fault => (.error fault, files)
      | none =>
        if (files.get? file.name).isSome then (.error (alreadyCreated file.name), files)
        else (.ok (), files.insert file.name file.text) := by
  unfold filer
  dsimp only
  cases refused file.name with
  | some fault => rfl
  | none =>
      rw [StateT.run_bind, StateT.run_get, pure_bind]
      dsimp only
      unfold create SortedMap.contains
      by_cases htaken : (files.get? file.name).isSome
      · rw [if_pos htaken, if_pos htaken]
        rfl
      · rw [if_neg htaken, if_neg htaken]
        rfl

theorem keeps_filer : (filer refused).Keeps SortedMap.get? where
  created := by
    intro file s s' h
    rw [run_filer_create] at h
    split at h
    · cases h
    · split at h
      · cases h
      · rename_i hfree
        obtain ⟨-, rfl⟩ := Prod.mk.inj h
        refine ⟨by simpa using hfree, fun name => ?_⟩
        exact SortedMap.get?_insert s file.name name file.text
  refused := by
    intro file s s' fault h name
    rw [run_filer_create] at h
    split at h
    · obtain ⟨-, rfl⟩ := Prod.mk.inj h
      rfl
    · split at h
      · obtain ⟨-, rfl⟩ := Prod.mk.inj h
        rfl
      · cases h

end Memory

/-! ## Handing in several files -/

variable {σ : Type} {filer : Filer (StateM σ)} {read : σ → Contents}

/-- **Either all files are created, or those before one that is refused.** -/
theorem Filer.Keeps.createAll (hf : filer.Keeps read) {files : List SourceFile} {s s' : σ}
    {answer : Except GenerationError Unit}
    (h : (Generator.createAll filer files).run s = (answer, s')) :
    (answer = .ok () ∧ Created (read s) (read s') files)
      ∨ ∃ before file after fault, files = before ++ file :: after
          ∧ answer = .error (.io file.name fault) ∧ Created (read s) (read s') before := by
  induction files generalizing s with
  | nil =>
      obtain ⟨rfl, rfl⟩ := Prod.mk.inj h
      exact Or.inl ⟨rfl, Created.nil fun _ => rfl⟩
  | cons file rest ih =>
      rw [Generator.createAll, StateT.run_bind] at h
      cases hfile : (filer.create file).run s with
      | mk outcome between =>
          rw [hfile] at h
          cases outcome with
          | error fault =>
              obtain ⟨rfl, rfl⟩ := Prod.mk.inj h
              refine Or.inr ⟨[], file, rest, fault, rfl, rfl, Created.nil ?_⟩
              exact hf.refused _ _ _ _ hfile
          | ok u =>
              obtain ⟨hfree, hread⟩ := hf.created _ _ _ hfile
              rcases ih h with ⟨rfl, hrest⟩ | ⟨before, file', after, fault, rfl, rfl, hbefore⟩
              · exact Or.inl ⟨rfl, hrest.cons hfree hread⟩
              · exact Or.inr ⟨file :: before, file', after, fault, rfl, rfl,
                  hbefore.cons hfree hread⟩

end TraitWeaver
