import Mathlib.Data.List.Forall2
import TesterSetup.Files.Master
import TesterSetup.Proofs.LookupLaws
import TesterSetup.Proofs.PathPlaces

/-!
# Following the entries of a master file

A master file is followed entry by entry: the path of the entry is resolved, the file there is read
unless it was read before, and what the entry names is added to the setup. `Follows` says the same
without the files that are remembered: each entry leads to a setup that some spelling of its path is
read as (`Indexed.LeadsTo`). On a file tree, following entries is `Follows` and leaves the tree as
it is (`Indexed.exists_gives_follow`), since what is remembered is what reading would give again.

The errors are those of resolving a path, of reading a file and of adding a part
(`Follows.stopsAmong`). Where a part is only added under a key that is free, adding it fails when
the file does not have it and at no other time.
-/

set_option autoImplicit false

namespace TesterSetup

/-! ### Reading without writing -/

namespace FileTree

variable {t : FileTree} {cwd : Place} {α β S : Type}

/-- On a file tree a computation has a result and leaves the tree as it is. -/
def Gives (t : FileTree) (x : ExceptT ReadError (StateM FileTree) α) (r : Except ReadError α) :
    Prop :=
  Id.run (x.run.run t) = (r, t)

theorem Gives.unique {x : ExceptT ReadError (StateM FileTree) α} {r r' : Except ReadError α}
    (h : t.Gives x r) (h' : t.Gives x r') : r = r' :=
  congrArg Prod.fst (h.symm.trans h')

theorem gives_pure (a : α) : t.Gives (pure a) (.ok a) :=
  rfl

theorem gives_throw (e : ReadError) : t.Gives (throw e : ExceptT ReadError _ α) (.error e) :=
  rfl

theorem gives_mk (r : Except ReadError α) : t.Gives (ExceptT.mk (pure r)) r :=
  rfl

theorem Gives.bind {x : ExceptT ReadError (StateM FileTree) α} {a : α} {r : Except ReadError β}
    {f : α → ExceptT ReadError (StateM FileTree) β} (hx : t.Gives x (.ok a))
    (hf : t.Gives (f a) r) : t.Gives (x >>= f) r := by
  unfold Gives at hx hf ⊢
  change Id.run (StateT.run (x.run >>= ExceptT.bindCont f) t) = _
  rw [StateT.run_bind]
  change (match Id.run (x.run.run t) with | (r, t) => (ExceptT.bindCont f r).run t) = _
  rw [hx]
  exact hf

theorem Gives.bind_error {x : ExceptT ReadError (StateM FileTree) α} {e : ReadError}
    {f : α → ExceptT ReadError (StateM FileTree) β} (hx : t.Gives x (.error e)) :
    t.Gives (x >>= f) (.error e) := by
  unfold Gives at hx ⊢
  change Id.run (StateT.run (x.run >>= ExceptT.bindCont f) t) = _
  rw [StateT.run_bind]
  change (match Id.run (x.run.run t) with | (r, t) => (ExceptT.bindCont f r).run t) = _
  rw [hx]
  rfl

/-- A file of a file tree, as a function of its path and its text understands it. -/
def readWith (t : FileTree) (cwd : Place) (ofFile : String → String → Except ReadError S)
    (path : String) : Except ReadError S :=
  (t.readText cwd path).mapError (.file path) >>= ofFile path

/-- The file that an entry of a master file leads to. -/
def fileOf (t : FileTree) (cwd : Place) (dir path : String) : Except ReadError String :=
  match masterPath dir path with
  | .error complaint => .error (.masterPath dir path complaint)
  | .ok file =>
    if t.isFile cwd file then .ok file else .error (.masterPath dir path (.noSuchFile file))

theorem fileOf_eq_ok_iff {dir path file : String} :
    t.fileOf cwd dir path = .ok file ↔
      masterPath dir path = .ok file ∧ t.isFile cwd file = true := by
  unfold fileOf
  cases masterPath dir path with
  | error complaint => exact iff_of_false nofun fun h ↦ nomatch h.1
  | ok found =>
    dsimp only
    rw [Except.ok.injEq]
    split
    · rename_i hfound
      rw [Except.ok.injEq]
      exact (and_iff_left_of_imp fun heq ↦ heq ▸ hfound).symm
    · rename_i hfound
      exact iff_of_false nofun fun ⟨heq, hfile⟩ ↦ hfound (heq ▸ hfile)

theorem gives_text (path : String) :
    t.Gives ((disk cwd).text path) ((t.readText cwd path).mapError (.file path)) :=
  rfl

theorem gives_readWith (ofFile : String → String → Except ReadError S) (path : String) :
    t.Gives ((disk cwd).readWith ofFile path) (t.readWith cwd ofFile path) := by
  unfold Disk.readWith readWith
  cases htext : (t.readText cwd path).mapError (ReadError.file path) with
  | error e => exact Gives.bind_error (htext ▸ gives_text path)
  | ok text => exact Gives.bind (htext ▸ gives_text path) (gives_mk _)

theorem gives_resolveMasterPath (dir path : String) :
    t.Gives ((disk cwd).resolveMasterPath dir path) (t.fileOf cwd dir path) := by
  unfold Disk.resolveMasterPath fileOf Gives
  cases masterPath dir path with
  | error complaint => rfl
  | ok file =>
    change Id.run ((if t.isFile cwd file then _ else _ : StateM FileTree _).run t) = _
    by_cases hfile : t.isFile cwd file = true
    · dsimp only
      rw [if_pos hfile, if_pos hfile]
      rfl
    · dsimp only
      rw [if_neg hfile, if_neg hfile]
      rfl

end FileTree

/-! ### Entries and the files they lead to -/

/-- A master file on a file tree, with the entries that are followed and the way in which the files
they lead to are understood. -/
structure Indexed (S : Type) where
  tree : FileTree
  cwd : Place
  path : String
  ofFile : String → String → Except ReadError S
  entries : List MasterEntry

namespace Indexed

variable {S κ : Type} {x : Indexed S}

/-- The file that an entry leads to. -/
def fileOf (x : Indexed S) (entry : MasterEntry) : Except ReadError String :=
  x.tree.fileOf x.cwd ((Path.parent? x.path).getD ".") entry.path

/-- The setup in a file. -/
def read (x : Indexed S) (file : String) : Except ReadError S :=
  x.tree.readWith x.cwd x.ofFile file

/-- A setup is read from the file of an entry whose path has these components. -/
def Reads (x : Indexed S) (components : List Char × List (List Char)) (part : S) : Prop :=
  ∃ entry ∈ x.entries, ∃ file,
    x.fileOf entry = .ok file ∧ Path.components file = components ∧ x.read file = .ok part

/-- An entry leads to a setup, which may be read from another spelling of its path. -/
def LeadsTo (x : Indexed S) (entry : MasterEntry) (part : S) : Prop :=
  ∃ file, x.fileOf entry = .ok file ∧ x.Reads (Path.components file) part

/-- An entry leads to no file, or to one that is not understood. -/
def Fails (x : Indexed S) (entry : MasterEntry) (e : ReadError) : Prop :=
  x.fileOf entry = .error e ∨ ∃ file, x.fileOf entry = .ok file ∧ x.read file = .error e

/-- The files that are remembered are files of entries as they are read. -/
def Remembers (x : Indexed S) (files : FilesRead S) : Prop :=
  ∀ components part, files.get? components = some part → x.Reads components part

theorem remembers_empty : x.Remembers .empty :=
  nofun

/-- What is asked for is read, now or before. -/
theorem exists_gives_require {files : FilesRead S} {entry : MasterEntry} {file : String}
    (hentry : entry ∈ x.entries) (hfile : x.fileOf entry = .ok file) (hfiles : x.Remembers files) :
    (∃ files' part, x.tree.Gives
        (files.require ((FileTree.disk x.cwd).readWith x.ofFile) file) (.ok (files', part)) ∧
        x.LeadsTo entry part ∧ x.Remembers files') ∨
      ∃ e, x.tree.Gives (files.require ((FileTree.disk x.cwd).readWith x.ofFile) file)
        (.error e) ∧ x.Fails entry e := by
  unfold FilesRead.require
  cases hget : files.get? (Path.components file) with
  | some part =>
    refine .inl ⟨files, part, FileTree.gives_pure _, ⟨file, hfile, ?_⟩, hfiles⟩
    exact hfiles _ _ hget
  | none =>
    have hgives : x.tree.Gives ((FileTree.disk x.cwd).readWith x.ofFile file) (x.read file) :=
      FileTree.gives_readWith x.ofFile file
    cases hread : x.read file with
    | error e =>
      rw [hread] at hgives
      exact .inr ⟨e, hgives.bind_error, .inr ⟨file, hfile, hread⟩⟩
    | ok part =>
      rw [hread] at hgives
      have hpart : x.Reads (Path.components file) part := ⟨entry, hentry, file, hfile, rfl, hread⟩
      refine .inl ⟨_, part, hgives.bind (FileTree.gives_pure _), ⟨file, hfile, hpart⟩, ?_⟩
      intro components other hother
      rw [OrderedMap.get?_insert] at hother
      split at hother
      · rename_i hsame
        cases hother
        exact hsame ▸ hpart
      · exact hfiles _ _ hother

/-! ### Following entries -/

/-- Entries are followed one after the other from a setup, with this result. -/
inductive Follows (x : Indexed S) (select : κ → S → S → Except ModelError S) :
    S → List (κ × MasterEntry) → Except ReadError S → Prop
  | done (s : S) : Follows x select s [] (.ok s)
  | fails {s : S} {key : κ} {entry : MasterEntry} {rest : List (κ × MasterEntry)} {e : ReadError}
      (h : x.Fails entry e) : Follows x select s ((key, entry) :: rest) (.error e)
  | refuses {s part : S} {key : κ} {entry : MasterEntry} {rest : List (κ × MasterEntry)}
      {cause : ModelError} (hpart : x.LeadsTo entry part) (h : select key part s = .error cause) :
      Follows x select s ((key, entry) :: rest)
        (.error (.line ⟨x.path, entry.line⟩ (.model cause)))
  | next {s part s' : S} {key : κ} {entry : MasterEntry} {rest : List (κ × MasterEntry)}
      {r : Except ReadError S} (hpart : x.LeadsTo entry part) (h : select key part s = .ok s')
      (hrest : Follows x select s' rest r) : Follows x select s ((key, entry) :: rest) r

variable {select : κ → S → S → Except ModelError S} {s s' : S} {entries : List (κ × MasterEntry)}

/-- On a file tree, following entries is `Follows` whatever is remembered of the files before. -/
theorem exists_gives_follow (select : κ → S → S → Except ModelError S) {g : Gathering S}
    (hentries : ∀ e ∈ entries, e.2 ∈ x.entries)
    (hfiles : x.Remembers g.files) :
    ∃ r, x.tree.Gives (Gathering.follow (FileTree.disk x.cwd)
        ((FileTree.disk x.cwd).readWith x.ofFile) x.path select g entries) r ∧
      x.Follows select g.setup entries (r.map Gathering.setup) ∧
      ∀ g', r = .ok g' → x.Remembers g'.files := by
  induction entries generalizing g with
  | nil =>
    refine ⟨.ok g, FileTree.gives_pure g, .done g.setup, ?_⟩
    rintro g' ⟨⟩
    exact hfiles
  | cons first rest ih =>
    obtain ⟨key, entry⟩ := first
    rw [List.forall_mem_cons] at hentries
    have hresolve : x.tree.Gives ((FileTree.disk x.cwd).resolveMasterPath
        ((Path.parent? x.path).getD ".") entry.path) (x.fileOf entry) :=
      FileTree.gives_resolveMasterPath _ _
    unfold Gathering.follow
    cases hfile : x.fileOf entry with
    | error e =>
      rw [hfile] at hresolve
      exact ⟨.error e, hresolve.bind_error, .fails (.inl hfile), nofun⟩
    | ok file =>
      rw [hfile] at hresolve
      rcases exists_gives_require hentries.1 hfile hfiles with
        ⟨files, part, hrequire, hpart, hfiles⟩ | ⟨e, hrequire, hfails⟩
      · cases hselect : select key part g.setup with
        | error cause =>
          refine ⟨.error (.line ⟨x.path, entry.line⟩ (.model cause)),
            hresolve.bind (hrequire.bind ?_), .refuses hpart hselect, nofun⟩
          dsimp only
          rw [hselect]
          exact FileTree.gives_throw _
        | ok setup =>
          obtain ⟨r, hgives, hfollows, hremembers⟩ := ih (g := ⟨files, setup⟩) hentries.2 hfiles
          refine ⟨r, hresolve.bind (hrequire.bind ?_), .next hpart hselect hfollows, hremembers⟩
          dsimp only
          rw [hselect]
          exact hgives
      · exact ⟨.error e, hresolve.bind hrequire.bind_error, .fails hfails, nofun⟩

/-- The setups that entries led to, with the keys under which parts of them were added. -/
def TakenFrom (x : Indexed S) (entries : List (κ × MasterEntry)) (taken : List (κ × S)) : Prop :=
  List.Forall₂ (fun e p ↦ e.1 = p.1 ∧ x.LeadsTo e.2 p.2) entries taken

/-- What each step adds is added one after the other. -/
theorem Follows.exists_taken (h : x.Follows select s entries (.ok s')) :
    ∃ taken, x.TakenFrom entries taken ∧
      ∀ {β : Type} (contents : S → List β) (added : κ → S → List β),
        (∀ key part s s', select key part s = .ok s' →
          contents s' = contents s ++ added key part) →
        contents s' = contents s ++ taken.flatMap fun p ↦ added p.1 p.2 := by
  generalize hr : Except.ok s' = r at h
  induction h with
  | done s =>
    cases hr
    exact ⟨[], .nil, fun contents added _ ↦ (List.append_nil _).symm⟩
  | fails h => cases hr
  | refuses hpart h => cases hr
  | @next s part s₁ key entry rest _ hpart hselect _ ih =>
    obtain ⟨taken, htaken, hcontents⟩ := ih hr
    refine ⟨(key, part) :: taken, .cons ⟨rfl, hpart⟩ htaken, fun contents added hadds ↦ ?_⟩
    rw [hcontents contents added hadds, hadds _ _ _ _ hselect, List.append_assoc,
      List.flatMap_cons]

/-- What no step changes stays as it is. -/
theorem Follows.eq_of_steps {β : Type} (contents : S → β)
    (hstep : ∀ key part s s', select key part s = .ok s' → contents s' = contents s)
    (h : x.Follows select s entries (.ok s')) : contents s' = contents s := by
  generalize hr : Except.ok s' = r at h
  induction h with
  | done s =>
    cases hr
    rfl
  | fails h => cases hr
  | refuses hpart h => cases hr
  | next hpart hselect _ ih => exact (ih hr).trans (hstep _ _ _ _ hselect)

theorem TakenFrom.map_fst {taken : List (κ × S)} (h : x.TakenFrom entries taken) :
    taken.map Prod.fst = entries.map Prod.fst := by
  induction h with
  | nil => rfl
  | cons hfirst _ ih => rw [List.map_cons, List.map_cons, ih, hfirst.1]

theorem TakenFrom.exists_of_mem {taken : List (κ × S)} {key : κ} {entry : MasterEntry}
    (h : x.TakenFrom entries taken) (hmem : (key, entry) ∈ entries) :
    ∃ part, (key, part) ∈ taken ∧ x.LeadsTo entry part := by
  induction h with
  | nil => cases hmem
  | @cons e p _ _ hfirst _ ih =>
    rcases List.mem_cons.mp hmem with rfl | hmem
    · exact ⟨p.2, by rw [show key = p.1 from hfirst.1]; exact List.mem_cons_self, hfirst.2⟩
    · obtain ⟨part, hpart, hleads⟩ := ih hmem
      exact ⟨part, List.mem_cons_of_mem _ hpart, hleads⟩

/-! ### Files as entries spell them -/

/-- An entry leads to its own file, if the spelling of a path does not matter to what is read. -/
theorem LeadsTo.exists_read {R : S → S → Prop} {entry : MasterEntry} {part : S}
    (hsame : ∀ file file' text part, x.ofFile file text = .ok part →
      ∃ part', x.ofFile file' text = .ok part' ∧ R part part')
    (h : x.LeadsTo entry part) :
    ∃ file part', x.fileOf entry = .ok file ∧ x.read file = .ok part' ∧ R part part' := by
  obtain ⟨file, hfile, -, -, spelling, -, hcomponents, hread⟩ := h
  obtain ⟨text, htext, hpart⟩ := except_bind_eq_ok_iff.mp hread
  have hisFile : x.tree.isFile x.cwd file = true := (FileTree.fileOf_eq_ok_iff.mp hfile).2
  have htext' : x.tree.readText x.cwd file = .ok text :=
    FileTree.readText_of_components hcomponents.symm hisFile (except_mapError_eq_ok_iff.mp htext)
  obtain ⟨part', hpart', hsame⟩ := hsame spelling file text part hpart
  refine ⟨file, part', hfile, ?_, hsame⟩
  exact except_bind_eq_ok_iff.mpr ⟨text, except_mapError_eq_ok_iff.mpr htext', hpart'⟩

/-- An entry ends the loading with an error: its file cannot be had, or lacks the part. -/
def Stops (x : Indexed S) (lacks : S → Prop) (missing : ModelError) (entry : MasterEntry)
    (e : ReadError) : Prop :=
  x.Fails entry e ∨ ∃ file part, x.fileOf entry = .ok file ∧ x.read file = .ok part ∧
    lacks part ∧ e = .line ⟨x.path, entry.line⟩ (.model missing)

/-- Some of the entries ends the loading. -/
def StopsAmong (x : Indexed S) (entries : List (κ × MasterEntry)) (lacks : κ → S → Prop)
    (missing : κ → ModelError) (e : ReadError) : Prop :=
  ∃ key entry, (key, entry) ∈ entries ∧ x.Stops (lacks key) (missing key) entry e

/-- Entries fail at one of them. Adding a part under a key that is free does not fail, and a part
that was added leaves the other keys free. So beside what lies in the file, the only reason is that
the setup lacks the part. -/
theorem Follows.stopsAmong {e : ReadError} {F : κ → S → Prop} {R : S → S → Prop}
    {lacks : κ → S → Prop} {missing : κ → ModelError}
    (hsame : ∀ file file' text part, x.ofFile file text = .ok part →
      ∃ part', x.ofFile file' text = .ok part' ∧ R part part')
    (hlacks : ∀ key part part', R part part' → lacks key part → lacks key part')
    (hselect : ∀ key part s cause, F key s → select key part s = .error cause →
      lacks key part ∧ cause = missing key)
    (hfree : ∀ key part s s' other, select key part s = .ok s' → key ≠ other → F other s →
      F other s')
    (hdistinct : (entries.map Prod.fst).Nodup) (hstart : ∀ key ∈ entries.map Prod.fst, F key s)
    (h : x.Follows select s entries (.error e)) : x.StopsAmong entries lacks missing e := by
  generalize hr : Except.error e = r at h
  induction h with
  | done s => cases hr
  | fails h =>
    cases hr
    exact ⟨_, _, List.mem_cons_self, .inl h⟩
  | refuses hpart h =>
    cases hr
    obtain ⟨hlacking, rfl⟩ := hselect _ _ _ _ (hstart _ List.mem_cons_self) h
    obtain ⟨file, part', hfile, hread, hsame⟩ := hpart.exists_read hsame
    exact ⟨_, _, List.mem_cons_self,
      .inr ⟨file, part', hfile, hread, hlacks _ _ _ hsame hlacking, rfl⟩⟩
  | @next s part s₁ key entry rest _ hpart h _ ih =>
    rw [List.map_cons, List.nodup_cons] at hdistinct
    rw [List.map_cons, List.forall_mem_cons] at hstart
    have hrest : ∀ other ∈ rest.map Prod.fst, F other s₁ := fun other hother ↦
      hfree _ _ _ _ _ h (fun heq ↦ hdistinct.1 (heq ▸ hother)) (hstart.2 other hother)
    obtain ⟨key', entry', hmem, hstops⟩ := ih hdistinct.2 hrest hr
    exact ⟨key', entry', List.mem_cons_of_mem _ hmem, hstops⟩

/-! ### One file -/

section OneFile

variable {file : String} {p : S} (hfile : ∀ entry ∈ x.entries, x.fileOf entry = .ok file)
  (hread : x.read file = .ok p)

include hfile hread

/-- Where all entries lead to one file, they lead to what is read from it. -/
theorem LeadsTo.eq_of_oneFile {entry : MasterEntry} {part : S} (h : x.LeadsTo entry part) :
    part = p := by
  obtain ⟨-, -, other, hother, spelling, hspelling, -, hpart⟩ := h
  rw [hfile other hother] at hspelling
  cases hspelling
  rw [hread] at hpart
  cases hpart
  rfl

theorem TakenFrom.eq_map_of_oneFile {taken : List (κ × S)} (h : x.TakenFrom entries taken) :
    taken = (entries.map Prod.fst).map (·, p) := by
  induction h with
  | nil => rfl
  | @cons e p' _ _ hfirst _ ih =>
    obtain ⟨hkey, hleads⟩ := hfirst
    have hpart := hleads.eq_of_oneFile hfile hread
    rw [List.map_cons, List.map_cons, ← ih, hkey, ← hpart]

/-- The entries of one file do not stop the loading, if the file has what they list. -/
theorem not_stops_of_oneFile {lacks : S → Prop} {missing : ModelError} {entry : MasterEntry}
    {e : ReadError} (hentry : entry ∈ x.entries) (hhas : ¬lacks p) :
    ¬x.Stops lacks missing entry e := by
  rintro ((hfails | ⟨file', hfile', hfails⟩) | ⟨file', part, hfile', hpart, hlacks, -⟩)
  · rw [hfile entry hentry] at hfails
    cases hfails
  · rw [hfile entry hentry] at hfile'
    cases hfile'
    rw [hread] at hfails
    cases hfails
  · rw [hfile entry hentry] at hfile'
    cases hfile'
    rw [hread] at hpart
    cases hpart
    exact hhas hlacks

end OneFile

end Indexed

end TesterSetup
