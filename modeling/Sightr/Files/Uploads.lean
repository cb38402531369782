import Mathlib.Algebra.Order.BigOperators.Group.List
import Mathlib.Data.List.Perm.Subperm
import Sightr.Files.Names
import Sightr.Lib.Runs
import Sightr.Lib.Table

/-!
# The uploads directory

`bridge/uploads.ts`, with the end of `uploadPane`: an upload lists the directory, deletes the oldest files until it
fits under the cap, and then writes its file. Sweeps delete what is too old. Every operation on the directory is a
step of its own, so any number of uploads and sweeps interleave; a file grows while it is written, and an `unlink` may
fail.
-/

namespace Sightr.Uploads

open Files (Name)
open Keyed (Table)

def MAX_UPLOAD_BYTES : Nat := 10 * 1024 * 1024
def MAX_UPLOADS_TOTAL_BYTES : Nat := 200 * 1024 * 1024
def UPLOAD_TTL_MS : ℚ := 48 * 60 * 60 * 1000

structure StoredFile where
  name : Name
  mtimeMs : ℚ
  size : Nat
  deriving DecidableEq

def total (files : List StoredFile) : Nat := (files.map (·.size)).sum

/-! ### The files that go -/

/-- The loop of `filesToEvict`, over the files oldest first. -/
def evictFrom (capBytes : Nat) : List StoredFile → Nat → List Name
  | [], _ => []
  | e :: rest, total => if total ≤ capBytes then [] else e.name :: evictFrom capBytes rest (total - e.size)

def oldestFirst (entries : List StoredFile) : List StoredFile := entries.mergeSort fun a b => a.mtimeMs ≤ b.mtimeMs

def filesToEvict (entries : List StoredFile) (incomingBytes capBytes : Nat) : List Name :=
  let total := total entries + incomingBytes
  if total ≤ capBytes then [] else evictFrom capBytes (oldestFirst entries) total

def filesToPrune (entries : List StoredFile) (now ttlMs : ℚ) : List Name :=
  (entries.filter fun e => ttlMs < now - e.mtimeMs).map (·.name)

/-! ### Uploads and sweeps -/

inductive UploadPhase
  | asked
  | listing (names : List Name)
  /-- The names that are still to be deleted, and the bytes freed so far. -/
  | evicting (wanted : List Name) (freed : Nat)
  | fits
  | refused
  /-- The file's name, and the bytes that are still to be written. -/
  | writing (name : Name) (left : Nat)
  | ended
  deriving DecidableEq

structure Upload where
  incoming : Nat
  phase : UploadPhase
  entries : List StoredFile := []
  tried : List Name := []
  /-- Has another upload written since this one listed the directory? -/
  overtaken : Bool := false
  deriving DecidableEq

inductive SweepPhase
  | listing (names : List Name)
  | pruning (stale : List Name)
  deriving DecidableEq

structure Sweep where
  now : ℚ
  phase : SweepPhase
  entries : List StoredFile := []
  deriving DecidableEq

structure UploadDir where
  files : Table StoredFile.name := .empty
  uploads : List Upload := []
  sweeps : List Sweep := []
  deriving DecidableEq

inductive Action
  | upload (incoming : Nat)
  | readdir (i : Nat)
  /-- `readdir` fails: the directory does not exist. -/
  | noDir (i : Nat)
  | stat (i : Nat)
  | evict (i : Nat)
  | unlink (i : Nat) (fails : Bool)
  /-- The last `unlink` is done: does the upload fit? -/
  | answer (i : Nat)
  /-- `writeFile` creates the file, under a name that is not in use. -/
  | create (i : Nat) (name : Name) (mtimeMs : ℚ)
  | write (i : Nat) (bytes : Nat) (mtimeMs : ℚ)
  /-- `writeFile` settles: done, or failed with part of the file written. -/
  | close (i : Nat)
  | sweep (now : ℚ)
  | sweepStat (j : Nat)
  | sweepPrune (j : Nat)
  | sweepUnlink (j : Nat) (fails : Bool)
  deriving DecidableEq

def remove (files : Table StoredFile.name) (name : Name) : Table StoredFile.name := files.filter (·.name ≠ name)

/-- `unlink`: it fails on its own account, or because the file is gone. -/
def unlinked (files : Table StoredFile.name) (name : Name) (fails : Bool) : Table StoredFile.name × Bool :=
  if fails || !files.has name then (files, false) else (remove files name, true)

/-- The file that gets more bytes, if it is the one of that name. -/
def grow (name : Name) (bytes : Nat) (mtimeMs : ℚ) (f : StoredFile) : StoredFile :=
  { f with size := if f.name = name then f.size + bytes else f.size
           mtimeMs := if f.name = name then mtimeMs else f.mtimeMs }

def wrote (uploads : List Upload) (i : Nat) (own : Upload) : List Upload :=
  (uploads.map fun u => { u with overtaken := true }).set i own

variable (capBytes : Nat)

def hasRoom (u : Upload) (freed : Nat) : Bool := (total u.entries : Int) - freed + u.incoming ≤ capBytes

def listedSize (entries : List StoredFile) (name : Name) : Nat :=
  ((entries.find? (·.name = name)).map (·.size)).getD 0

variable (d : UploadDir)

def UploadDir.put (i : Nat) (u : Upload) : UploadDir := { d with uploads := d.uploads.set i u }

def UploadDir.putSweep (j : Nat) (w : Sweep) : UploadDir := { d with sweeps := d.sweeps.set j w }

def stepUpload (i : Nat) (u : Upload) : Action → Option UploadDir
  | .readdir _ =>
    if u.phase = .asked then
      some (d.put i { u with phase := .listing (d.files.rows.map (·.name)), overtaken := false })
    else none
  | .noDir _ =>
    if u.phase = .asked && d.files.rows.isEmpty then some (d.put i { u with phase := .fits, overtaken := false })
    else none
  | .stat _ =>
    match u.phase with
    | .listing (name :: names) =>
      some (d.put i { u with phase := .listing names, entries := u.entries ++ (d.files.find? name).toList })
    | _ => none
  | .evict _ =>
    if u.phase = .listing [] then
      some (d.put i { u with phase := .evicting (filesToEvict u.entries u.incoming capBytes) 0 })
    else none
  | .unlink _ fails =>
    match u.phase with
    | .evicting (name :: wanted) freed =>
      let after := unlinked d.files name fails
      let freed := if after.2 then freed + listedSize u.entries name else freed
      some (UploadDir.put { d with files := after.1 } i
        { u with phase := .evicting wanted freed, tried := u.tried ++ [name] })
    | _ => none
  | .answer _ =>
    match u.phase with
    | .evicting [] freed => some (d.put i { u with phase := if hasRoom capBytes u freed then .fits else .refused })
    | _ => none
  | .create _ name mtimeMs =>
    if u.phase = .fits && !d.files.has name then
      some { d with
        files := d.files.set { name, mtimeMs, size := 0 }
        uploads := wrote d.uploads i { u with phase := .writing name u.incoming } }
    else none
  | .write _ bytes mtimeMs =>
    match u.phase with
    | .writing name left =>
      if bytes ≤ left then
        some { d with
          files := d.files.modify (grow name bytes mtimeMs) fun _ => rfl
          uploads := wrote d.uploads i { u with phase := .writing name (left - bytes) } }
      else none
    | _ => none
  | .close _ =>
    match u.phase with
    | .writing _ _ => some (d.put i { u with phase := .ended })
    | _ => none
  | _ => none

def stepSweep (j : Nat) (w : Sweep) : Action → Option UploadDir
  | .sweepStat _ =>
    match w.phase with
    | .listing (name :: names) =>
      some (d.putSweep j { w with phase := .listing names, entries := w.entries ++ (d.files.find? name).toList })
    | _ => none
  | .sweepPrune _ =>
    if w.phase = .listing [] then
      some (d.putSweep j { w with phase := .pruning (filesToPrune w.entries w.now UPLOAD_TTL_MS) })
    else none
  | .sweepUnlink _ fails =>
    match w.phase with
    | .pruning (name :: stale) =>
      some (UploadDir.putSweep { d with files := (unlinked d.files name fails).1 } j
        { w with phase := .pruning stale })
    | _ => none
  | _ => none

def step (a : Action) : Option UploadDir :=
  match a with
  | .upload incoming =>
    let phase : UploadPhase := if capBytes < incoming then .refused else .asked
    some { d with uploads := d.uploads ++ [{ incoming, phase }] }
  | .sweep now => some { d with sweeps := d.sweeps ++ [{ now, phase := .listing (d.files.rows.map (·.name)) }] }
  | .readdir i | .noDir i | .stat i | .evict i | .unlink i _ | .answer i | .create i _ _ | .write i _ _ | .close i =>
    d.uploads[i]?.bind fun u => stepUpload capBytes d i u a
  | .sweepStat j | .sweepPrune j | .sweepUnlink j _ => d.sweeps[j]?.bind fun w => stepSweep d j w a

/-- An upload writes only if no other has written since it listed the directory. -/
def Alone : Action → Prop
  | .create i _ _ | .write i _ _ => ∀ u ∈ d.uploads[i]?, u.overtaken = false
  | _ => True

instance (d : UploadDir) : (a : Action) → Decidable (Alone d a)
  | .create i _ _ => inferInstanceAs (Decidable (∀ u ∈ d.uploads[i]?, u.overtaken = false))
  | .write i _ _ => inferInstanceAs (Decidable (∀ u ∈ d.uploads[i]?, u.overtaken = false))
  | .upload _ | .readdir _ | .noDir _ | .stat _ | .evict _ | .unlink _ _ | .answer _ | .close _ | .sweep _ |
    .sweepStat _ | .sweepPrune _ | .sweepUnlink _ _ => inferInstanceAs (Decidable True)

/-! ### What is evicted -/

theorem total_append (a b : List StoredFile) : total (a ++ b) = total a + total b := by
  simp [total]

@[simp] theorem total_cons (f : StoredFile) (files : List StoredFile) :
    total (f :: files) = f.size + total files := by
  simp [total]

@[simp] theorem total_nil : total [] = 0 := rfl

theorem total_oldestFirst (entries : List StoredFile) : total (oldestFirst entries) = total entries :=
  ((List.mergeSort_perm entries _).map _).sum_nat

theorem evictFrom_spec (capBytes incoming : Nat) (files : List StoredFile) :
    ∃ k ≤ files.length, evictFrom capBytes files (total files + incoming) = (files.take k).map (·.name) ∧
      (∀ j < k, capBytes < total (files.drop j) + incoming) ∧
        (total (files.drop k) + incoming ≤ capBytes ∨ k = files.length) := by
  induction files with
  | nil => exact ⟨0, le_rfl, rfl, fun j hj => absurd hj (Nat.not_lt_zero j), .inr rfl⟩
  | cons e rest ih =>
    rw [evictFrom]
    split_ifs with hfits
    · exact ⟨0, Nat.zero_le _, rfl, fun j hj => absurd hj (Nat.not_lt_zero j), .inl hfits⟩
    · obtain ⟨k, hk, hnames, hbefore, hlast⟩ := ih
      have hrest : total (e :: rest) + incoming - e.size = total rest + incoming := by
        rw [total_cons]
        omega
      refine ⟨k + 1, Nat.succ_le_succ hk, by rw [hrest, hnames]; rfl, fun j hj => ?_, ?_⟩
      · cases j with
        | zero => exact Nat.lt_of_not_le hfits
        | succ j => exact hbefore j (Nat.lt_of_succ_lt_succ hj)
      · exact hlast.imp id (congrArg (· + 1))

variable {entries : List StoredFile}

/-- The files evicted are the shortest run of the oldest ones that makes room, none when the upload fits. -/
theorem filesToEvict_spec {incoming capBytes : Nat} (h : incoming ≤ capBytes) :
    ∃ k ≤ entries.length, filesToEvict entries incoming capBytes = ((oldestFirst entries).take k).map (·.name) ∧
      total ((oldestFirst entries).drop k) + incoming ≤ capBytes ∧
        ∀ j < k, capBytes < total ((oldestFirst entries).drop j) + incoming := by
  rw [filesToEvict]
  split_ifs with hfits
  · exact ⟨0, Nat.zero_le _, rfl, by rwa [List.drop_zero, total_oldestFirst],
      fun j hj => absurd hj (Nat.not_lt_zero j)⟩
  · obtain ⟨k, hk, hnames, hbefore, hlast⟩ := evictFrom_spec capBytes incoming (oldestFirst entries)
    rw [total_oldestFirst] at hnames
    refine ⟨k, by rwa [oldestFirst, List.length_mergeSort] at hk, hnames, ?_, hbefore⟩
    obtain hroom | rfl := hlast
    · exact hroom
    · rwa [List.drop_length, total_nil, Nat.zero_add]

theorem filesToEvict_nil (incoming capBytes : Nat) : filesToEvict [] incoming capBytes = [] := by
  rw [filesToEvict]
  split_ifs
  · rfl
  · simp [oldestFirst, evictFrom]

/-! ### What the directory holds -/

theorem total_le_of_subset {a b : List StoredFile} (hnodup : a.Nodup) (hsub : a ⊆ b) : total a ≤ total b := by
  obtain ⟨c, hperm, hsublist⟩ := hnodup.subperm hsub
  have hsame : total c = total a := (hperm.map _).sum_nat
  rw [← hsame]
  exact (hsublist.map _).sum_le_sum fun _ _ => Nat.zero_le _

theorem nodup_rows (files : Table StoredFile.name) : files.rows.Nodup := List.Nodup.of_map _ files.nodup

variable {files : List StoredFile} {f : StoredFile}

theorem total_filter_ne (hnodup : (files.map (·.name)).Nodup) (h : f ∈ files) :
    total (files.filter (·.name ≠ f.name)) + f.size = total files := by
  induction files with
  | nil => cases h
  | cons g rest ih =>
    obtain ⟨hnew, hrest⟩ := List.nodup_cons.mp hnodup
    rw [total_cons]
    obtain rfl | h := List.mem_cons.mp h
    · have hall : rest.filter (·.name ≠ f.name) = rest := by
        refine List.filter_eq_self.mpr fun g hg => ?_
        simpa using fun hsame => hnew (List.mem_map.mpr ⟨g, hg, hsame⟩)
      rw [List.filter_cons_of_neg (by simp), hall, Nat.add_comm]
    · have hne : g.name ≠ f.name := fun hsame => hnew (List.mem_map.mpr ⟨f, h, hsame.symm⟩)
      rw [List.filter_cons_of_pos (by simpa using hne), total_cons, Nat.add_assoc, ih hrest h]

theorem total_remove {files : Table StoredFile.name} (h : f ∈ files.rows) :
    total (remove files f.name).rows + f.size = total files.rows := total_filter_ne files.nodup h

theorem unlinked_cases (files : Table StoredFile.name) (name : Name) (fails : Bool) :
    unlinked files name fails = (files, false) ∨
      ∃ f ∈ files.rows, f.name = name ∧ unlinked files name fails = (remove files name, true) := by
  unfold unlinked
  split_ifs with hgone
  · exact .inl rfl
  · simp only [Bool.or_eq_true, Bool.not_eq_true', not_or, Bool.not_eq_false] at hgone
    obtain ⟨f, hf, hname⟩ := Table.has_iff.mp hgone.2
    exact .inr ⟨f, hf, hname, rfl⟩

theorem unlinked_subset (files : Table StoredFile.name) (name : Name) (fails : Bool) :
    (unlinked files name fails).1.rows ⊆ files.rows := by
  obtain hkept | ⟨-, -, -, hgone⟩ := unlinked_cases files name fails
  · rw [hkept]
    exact List.Subset.refl _
  · rw [hgone]
    exact fun f hf => List.mem_of_mem_filter hf

theorem total_grow_le (hnodup : (files.map (·.name)).Nodup) (name : Name) (bytes : Nat) (mtimeMs : ℚ) :
    total (files.map (grow name bytes mtimeMs)) ≤ total files + bytes := by
  induction files with
  | nil => exact Nat.zero_le _
  | cons f rest ih =>
    obtain ⟨hnew, hrest⟩ := List.nodup_cons.mp hnodup
    have htail := ih hrest
    rw [List.map_cons, total_cons, total_cons]
    by_cases hname : f.name = name
    · have hother : ∀ g ∈ rest, grow name bytes mtimeMs g = g := by
        intro g hg
        have hne : g.name ≠ name := fun hsame => hnew (List.mem_map.mpr ⟨g, hg, hsame.trans hname.symm⟩)
        simp only [grow, if_neg hne]
      rw [List.map_congr_left hother, List.map_id']
      simp only [grow, if_pos hname]
      omega
    · simp only [grow, if_neg hname]
      omega

/-! ### What an upload knows -/

/-- What an upload that is not overtaken knows of the directory: where it stands on the way to its write. -/
def Knows (files : Table StoredFile.name) (u : Upload) : UploadPhase → Prop
  | .listing names => ∀ f ∈ files.rows, f.name ∈ names ∨ f ∈ u.entries
  | .evicting _ freed => files.rows ⊆ u.entries ∧ total files.rows + freed ≤ total u.entries
  | .fits => total files.rows + u.incoming ≤ capBytes
  | .writing _ left => total files.rows + left ≤ capBytes
  | _ => True

def ListsOnce (u : Upload) : UploadPhase → Prop
  | .listing names => (u.entries.map (·.name) ++ names).Nodup
  | .evicting _ _ => (u.entries.map (·.name)).Nodup
  | .asked => u.entries = []
  | _ => True

/-- The names an upload has tried to delete, and is still to try, are those to evict of the files it listed. -/
def Tries (u : Upload) : UploadPhase → Prop
  | .asked => u.tried = []
  | .listing _ => u.tried = []
  | .evicting wanted _ => u.tried ++ wanted = filesToEvict u.entries u.incoming capBytes
  | _ => u.tried = filesToEvict u.entries u.incoming capBytes

/-- What holds of an upload: unless it was overtaken, it knows the directory. -/
structure Sound (capBytes : Nat) (files : Table StoredFile.name) (u : Upload) : Prop where
  small : u.phase ≠ .refused → u.incoming ≤ capBytes
  once : ListsOnce u u.phase
  tries : Tries capBytes u u.phase
  knows : u.overtaken = false → Knows capBytes files u u.phase

variable {capBytes : Nat} {files files' : Table StoredFile.name} {u : Upload}

section

variable (h : Sound capBytes files u)
include h

theorem Sound.mono (hsub : files'.rows ⊆ files.rows) : Sound capBytes files' u := by
  have hless := total_le_of_subset (nodup_rows files') hsub
  refine ⟨h.small, h.once, h.tries, fun hcalm => ?_⟩
  have hknows := h.knows hcalm
  cases hphase : u.phase with
  | listing names =>
    rw [hphase] at hknows
    exact fun f hf => hknows f (hsub hf)
  | evicting wanted freed =>
    rw [hphase] at hknows
    exact ⟨fun f hf => hknows.1 (hsub hf), (Nat.add_le_add_right hless freed).trans hknows.2⟩
  | fits =>
    rw [hphase] at hknows
    exact (Nat.add_le_add_right hless u.incoming).trans hknows
  | writing name left =>
    rw [hphase] at hknows
    exact (Nat.add_le_add_right hless left).trans hknows
  | asked => trivial
  | refused => trivial
  | ended => trivial

theorem Sound.overtake : Sound capBytes files' { u with overtaken := true } :=
  ⟨h.small, h.once, h.tries, fun hcalm => absurd hcalm (by simp)⟩

theorem Sound.readdir (hphase : u.phase = .asked) :
    Sound capBytes files { u with phase := .listing (files.rows.map (·.name)), overtaken := false } := by
  obtain ⟨hsmall, hnone, htries, -⟩ := h
  rw [hphase] at hsmall hnone htries
  refine ⟨fun _ => hsmall (by simp), ?_, htries, fun _ f hf => .inl (List.mem_map.mpr ⟨f, hf, rfl⟩)⟩
  have hentries : u.entries = [] := hnone
  simpa [ListsOnce, hentries] using files.nodup

theorem Sound.noDir (hphase : u.phase = .asked) (hnone : files.rows = []) :
    Sound capBytes files { u with phase := .fits, overtaken := false } := by
  obtain ⟨hsmall, hentries, htries, -⟩ := h
  rw [hphase] at hsmall hentries htries
  have hentries : u.entries = [] := hentries
  have htried : u.tried = [] := htries
  have hroom := hsmall (by simp)
  refine ⟨fun _ => hroom, trivial, ?_, fun _ => ?_⟩
  · change u.tried = filesToEvict u.entries u.incoming capBytes
    rw [htried, hentries, filesToEvict_nil]
  · change total files.rows + u.incoming ≤ capBytes
    rwa [hnone, total_nil, Nat.zero_add]

end

variable {name : Name}

theorem Sound.stat (h : Sound capBytes files u) {names : List Name} (hphase : u.phase = .listing (name :: names)) :
    Sound capBytes files { u with phase := .listing names, entries := u.entries ++ (files.find? name).toList } := by
  obtain ⟨hsmall, honce, htries, hknows⟩ := h
  rw [hphase] at hsmall honce htries hknows
  have hroom := hsmall (by simp)
  have honce : (u.entries.map (·.name) ++ name :: names).Nodup := honce
  cases hfound : files.find? name with
  | none =>
    refine ⟨fun _ => hroom, ?_, htries, fun hcalm f hf => ?_⟩
    · simpa [ListsOnce] using honce.sublist ((List.sublist_cons_self name names).append_left _)
    · obtain hmem | hmem := hknows hcalm f hf
      · obtain rfl | hmem := List.mem_cons.mp hmem
        · exact absurd rfl (Table.find?_eq_none_iff.mp hfound f hf)
        · exact .inl hmem
      · exact .inr (List.mem_append_left _ hmem)
  | some g =>
    have hname := Table.key_of_find? hfound
    refine ⟨fun _ => hroom, ?_, htries, fun hcalm f hf => ?_⟩
    · simpa [ListsOnce, hname] using honce
    · obtain hmem | hmem := hknows hcalm f hf
      · obtain hsame | hmem := List.mem_cons.mp hmem
        · have hfg := files.eq_of_key_eq hf (Table.mem_of_find? hfound) (hsame.trans hname.symm)
          exact .inr (List.mem_append_right _ (by rw [hfg]; exact List.mem_singleton_self _))
        · exact .inl hmem
      · exact .inr (List.mem_append_left _ hmem)

theorem Sound.evict (h : Sound capBytes files u) (hphase : u.phase = .listing []) :
    Sound capBytes files { u with phase := .evicting (filesToEvict u.entries u.incoming capBytes) 0 } := by
  obtain ⟨hsmall, honce, htries, hknows⟩ := h
  rw [hphase] at hsmall honce htries hknows
  have hnone : u.tried = [] := htries
  refine ⟨fun _ => hsmall (by simp), by simpa [ListsOnce] using honce, by simp [Tries, hnone], fun hcalm => ?_⟩
  have hsub : files.rows ⊆ u.entries := fun f hf => (hknows hcalm f hf).resolve_left (List.not_mem_nil)
  exact ⟨hsub, total_le_of_subset (nodup_rows files) hsub⟩

theorem listedSize_of_mem (hnodup : (entries.map (·.name)).Nodup) (h : f ∈ entries) :
    listedSize entries f.name = f.size := by
  have hfound := Table.find?_key (t := ⟨entries, hnodup⟩) h
  unfold Table.find? at hfound
  simp only [listedSize, hfound, Option.map_some, Option.getD_some]

variable {freed : Nat}

theorem Sound.unlink (h : Sound capBytes files u) {wanted : List Name} (fails : Bool)
    (hphase : u.phase = .evicting (name :: wanted) freed) :
    Sound capBytes (unlinked files name fails).1 { u with
      phase := .evicting wanted (if (unlinked files name fails).2 then freed + listedSize u.entries name else freed)
      tried := u.tried ++ [name] } := by
  obtain ⟨hsmall, honce, htries, hknows⟩ := h
  rw [hphase] at hsmall honce htries hknows
  have honce : (u.entries.map (·.name)).Nodup := honce
  refine ⟨fun _ => hsmall (by simp), honce, by simpa [Tries] using htries, fun hcalm => ?_⟩
  obtain ⟨hsub, htotal⟩ := hknows hcalm
  refine ⟨fun f hf => hsub (unlinked_subset files name fails hf), ?_⟩
  obtain hkept | ⟨f, hf, rfl, hgone⟩ := unlinked_cases files name fails
  · rw [hkept]
    exact htotal
  · have hless := total_remove hf
    have hsize := listedSize_of_mem honce (hsub hf)
    rw [hgone]
    change total (remove files f.name).rows + (freed + listedSize u.entries f.name) ≤ total u.entries
    omega

theorem Sound.answer (h : Sound capBytes files u) (hphase : u.phase = .evicting [] freed) :
    Sound capBytes files { u with phase := if hasRoom capBytes u freed then .fits else .refused } := by
  obtain ⟨hsmall, honce, htries, hknows⟩ := h
  rw [hphase] at hsmall htries hknows
  have htried : u.tried = filesToEvict u.entries u.incoming capBytes := by simpa [Tries] using htries
  by_cases hroom : hasRoom capBytes u freed
  · simp only [hroom, if_true]
    refine ⟨fun _ => hsmall (by simp), trivial, htried, fun hcalm => ?_⟩
    obtain ⟨-, htotal⟩ := hknows hcalm
    have hfits : (total u.entries : Int) - freed + u.incoming ≤ capBytes := by simpa [hasRoom] using hroom
    change total files.rows + u.incoming ≤ capBytes
    omega
  · simp only [hroom]
    exact ⟨fun _ => hsmall (by simp), trivial, htried, fun _ => trivial⟩

/-- What holds of every upload, and in a calm run, where no write is by an upload that was overtaken, the bound. -/
structure Bounded (capBytes : Nat) (calm : Prop) (d : UploadDir) : Prop where
  total_le : calm → total d.files.rows ≤ capBytes
  sound : ∀ u ∈ d.uploads, Sound capBytes d.files u

variable {calm : Prop} {d t : UploadDir}

variable {own : Upload}

section

variable (h : Bounded capBytes calm d)
include h

theorem Bounded.put (hown : Sound capBytes d.files own) (i : Nat) : Bounded capBytes calm (d.put i own) := by
  refine ⟨h.total_le, fun u hu => ?_⟩
  obtain hmem | rfl := List.mem_or_eq_of_mem_set hu
  · exact h.sound u hmem
  · exact hown

theorem Bounded.delete (hsub : files'.rows ⊆ d.files.rows) : Bounded capBytes calm { d with files := files' } :=
  ⟨fun hc => (total_le_of_subset (nodup_rows files') hsub).trans (h.total_le hc),
    fun u hu => (h.sound u hu).mono hsub⟩

theorem Bounded.overtake (i : Nat) (htotal : calm → total files'.rows ≤ capBytes) (hown : Sound capBytes files' own) :
    Bounded capBytes calm { d with files := files', uploads := wrote d.uploads i own } := by
  refine ⟨htotal, fun u hu => ?_⟩
  obtain hmem | rfl := List.mem_or_eq_of_mem_set hu
  · obtain ⟨before, hbefore, rfl⟩ := List.mem_map.mp hmem
    exact (h.sound before hbefore).overtake
  · exact hown

theorem Bounded.create {i : Nat} (hu : u ∈ d.uploads)
    (hcalm : calm → u.overtaken = false) (hphase : u.phase = .fits) {name : Name} (hnew : d.files.has name = false)
    (mtimeMs : ℚ) : Bounded capBytes calm { d with
      files := d.files.set { name, mtimeMs, size := 0 }
      uploads := wrote d.uploads i { u with phase := .writing name u.incoming } } := by
  obtain ⟨hsmall, -, htries, hknows⟩ := h.sound u hu
  rw [hphase] at hsmall htries hknows
  have hfits : u.overtaken = false → total d.files.rows + u.incoming ≤ capBytes := hknows
  have hfound : d.files.find? name = none := by
    rwa [Table.has, Option.isSome_eq_false_iff, Option.isNone_iff_eq_none] at hnew
  have hrows : (d.files.set { name, mtimeMs, size := 0 }).rows = d.files.rows ++ [{ name, mtimeMs, size := 0 }] :=
    Table.rows_set_of_find?_eq_none hfound
  have htotal : total (d.files.set { name, mtimeMs, size := 0 }).rows = total d.files.rows := by
    rw [hrows, total_append]
    rfl
  refine h.overtake i (fun hc => ?_) ⟨fun _ => hsmall (by simp), trivial, htries, fun hc => ?_⟩
  · have hroom := hfits (hcalm hc)
    omega
  · change total (d.files.set { name, mtimeMs, size := 0 }).rows + u.incoming ≤ capBytes
    rw [htotal]
    exact hfits hc

theorem Bounded.write {i : Nat} (hu : u ∈ d.uploads)
    (hcalm : calm → u.overtaken = false) {left bytes : Nat} (hphase : u.phase = .writing name left)
    (hbytes : bytes ≤ left) (mtimeMs : ℚ) : Bounded capBytes calm { d with
      files := d.files.modify (grow name bytes mtimeMs) fun _ => rfl
      uploads := wrote d.uploads i { u with phase := .writing name (left - bytes) } } := by
  obtain ⟨hsmall, -, htries, hknows⟩ := h.sound u hu
  rw [hphase] at hsmall htries hknows
  have hfits : u.overtaken = false → total d.files.rows + left ≤ capBytes := hknows
  have hgrown : total (d.files.modify (grow name bytes mtimeMs) fun _ => rfl).rows ≤ total d.files.rows + bytes :=
    total_grow_le d.files.nodup name bytes mtimeMs
  refine h.overtake i (fun hc => ?_) ⟨fun _ => hsmall (by simp), trivial, htries, fun hc => ?_⟩
  · have hroom := hfits (hcalm hc)
    omega
  · have hroom := hfits hc
    change total (d.files.modify (grow name bytes mtimeMs) fun _ => rfl).rows + (left - bytes) ≤ capBytes
    omega

/-- Every operation keeps the bound, if an upload that writes was not overtaken. -/
theorem Bounded.step {a : Action} (hcalm : calm → Alone d a)
    (hstep : step capBytes d a = some t) : Bounded capBytes calm t := by
  have hsound : ∀ {i : Nat} {u : Upload}, d.uploads[i]? = some u → Sound capBytes d.files u := fun hu =>
    h.sound _ (List.mem_of_getElem? hu)
  cases a with
  | upload incoming =>
    cases hstep
    refine ⟨h.total_le, fun u hu => ?_⟩
    obtain hmem | hmem := List.mem_append.mp hu
    · exact h.sound u hmem
    · obtain rfl := List.mem_singleton.mp hmem
      by_cases hlarge : capBytes < incoming
      · simp only [hlarge, if_true]
        exact ⟨fun hrefused => absurd rfl hrefused, trivial, (filesToEvict_nil incoming capBytes).symm,
          fun _ => trivial⟩
      · simp only [hlarge]
        exact ⟨fun _ => Nat.le_of_not_lt hlarge, rfl, rfl, fun _ => trivial⟩
  | sweep now =>
    cases hstep
    exact ⟨h.total_le, h.sound⟩
  | readdir i =>
    obtain ⟨u, hu, hstep⟩ := Option.bind_eq_some_iff.mp hstep
    simp only [stepUpload] at hstep
    split_ifs at hstep with hphase
    cases hstep
    exact h.put ((hsound hu).readdir hphase) i
  | noDir i =>
    obtain ⟨u, hu, hstep⟩ := Option.bind_eq_some_iff.mp hstep
    simp only [stepUpload] at hstep
    split_ifs at hstep with hready
    simp only [Bool.and_eq_true, decide_eq_true_eq, List.isEmpty_iff] at hready
    cases hstep
    exact h.put ((hsound hu).noDir hready.1 hready.2) i
  | stat i =>
    obtain ⟨u, hu, hstep⟩ := Option.bind_eq_some_iff.mp hstep
    simp only [stepUpload] at hstep
    split at hstep
    · rename_i name names hphase
      cases hstep
      exact h.put ((hsound hu).stat hphase) i
    · cases hstep
  | evict i =>
    obtain ⟨u, hu, hstep⟩ := Option.bind_eq_some_iff.mp hstep
    simp only [stepUpload] at hstep
    split_ifs at hstep with hphase
    cases hstep
    exact h.put ((hsound hu).evict hphase) i
  | unlink i fails =>
    obtain ⟨u, hu, hstep⟩ := Option.bind_eq_some_iff.mp hstep
    simp only [stepUpload] at hstep
    split at hstep
    · rename_i name wanted freed hphase
      cases hstep
      exact (h.delete (unlinked_subset d.files name fails)).put ((hsound hu).unlink fails hphase) i
    · cases hstep
  | answer i =>
    obtain ⟨u, hu, hstep⟩ := Option.bind_eq_some_iff.mp hstep
    simp only [stepUpload] at hstep
    split at hstep
    · rename_i freed hphase
      cases hstep
      exact h.put ((hsound hu).answer hphase) i
    · cases hstep
  | create i name mtimeMs =>
    obtain ⟨u, hu, hstep⟩ := Option.bind_eq_some_iff.mp hstep
    simp only [stepUpload] at hstep
    split_ifs at hstep with hready
    simp only [Bool.and_eq_true, decide_eq_true_eq, Bool.not_eq_true'] at hready
    cases hstep
    exact h.create (List.mem_of_getElem? hu) (fun hc => hcalm hc u hu) hready.1 hready.2 mtimeMs
  | write i bytes mtimeMs =>
    obtain ⟨u, hu, hstep⟩ := Option.bind_eq_some_iff.mp hstep
    simp only [stepUpload] at hstep
    split at hstep
    · rename_i name left hphase
      split_ifs at hstep with hbytes
      cases hstep
      exact h.write (List.mem_of_getElem? hu) (fun hc => hcalm hc u hu) hphase hbytes mtimeMs
    · cases hstep
  | close i =>
    obtain ⟨u, hu, hstep⟩ := Option.bind_eq_some_iff.mp hstep
    simp only [stepUpload] at hstep
    split at hstep
    · rename_i name left hphase
      cases hstep
      obtain ⟨hsmall, -, htries, -⟩ := hsound hu
      rw [hphase] at hsmall htries
      have hclosed : Sound capBytes d.files { u with phase := .ended } :=
        ⟨fun _ => hsmall (by simp), trivial, htries, fun _ => trivial⟩
      exact h.put hclosed i
    · cases hstep
  | sweepStat j =>
    obtain ⟨w, hw, hstep⟩ := Option.bind_eq_some_iff.mp hstep
    simp only [stepSweep] at hstep
    split at hstep
    · cases hstep
      exact ⟨h.total_le, h.sound⟩
    · cases hstep
  | sweepPrune j =>
    obtain ⟨w, hw, hstep⟩ := Option.bind_eq_some_iff.mp hstep
    simp only [stepSweep] at hstep
    split_ifs at hstep
    cases hstep
    exact ⟨h.total_le, h.sound⟩
  | sweepUnlink j fails =>
    obtain ⟨w, hw, hstep⟩ := Option.bind_eq_some_iff.mp hstep
    simp only [stepSweep] at hstep
    split at hstep
    · rename_i name stale hphase
      cases hstep
      have hless := h.delete (unlinked_subset d.files name fails)
      exact ⟨hless.total_le, hless.sound⟩
    · cases hstep

end

/-- A directory under the cap, with nothing under way. -/
structure Start (capBytes : Nat) (d : UploadDir) : Prop where
  total_le : total d.files.rows ≤ capBytes
  uploads : d.uploads = []

theorem Start.bounded (h : Start capBytes d) (calm : Prop) : Bounded capBytes calm d :=
  ⟨fun _ => h.total_le, by simp [h.uploads]⟩

def Upload.checked (u : Upload) : Bool :=
  match u.phase with
  | .asked | .listing _ | .evicting _ _ => false
  | _ => true

theorem Sound.tried_isPrefix (h : Sound capBytes files u) : u.tried <+: filesToEvict u.entries u.incoming capBytes ∧
      (u.checked → u.tried = filesToEvict u.entries u.incoming capBytes) := by
  have htries := h.tries
  have hall : u.tried = filesToEvict u.entries u.incoming capBytes →
      u.tried <+: filesToEvict u.entries u.incoming capBytes := fun heq => heq ▸ List.prefix_rfl
  unfold Upload.checked
  cases hphase : u.phase with
  | asked =>
    rw [hphase] at htries
    exact ⟨by rw [show u.tried = [] from htries]; exact List.nil_prefix, by simp⟩
  | listing names =>
    rw [hphase] at htries
    exact ⟨by rw [show u.tried = [] from htries]; exact List.nil_prefix, by simp⟩
  | evicting wanted freed =>
    rw [hphase] at htries
    exact ⟨⟨wanted, htries⟩, by simp⟩
  | fits =>
    rw [hphase] at htries
    exact ⟨hall htries, fun _ => htries⟩
  | refused =>
    rw [hphase] at htries
    exact ⟨hall htries, fun _ => htries⟩
  | writing name left =>
    rw [hphase] at htries
    exact ⟨hall htries, fun _ => htries⟩
  | ended =>
    rw [hphase] at htries
    exact ⟨hall htries, fun _ => htries⟩

/-- In a run where no upload writes once another has written since it listed the directory, the files stay under the
cap. In every run each upload tries to delete the files to evict of those it listed, in order and no others, and these
are the shortest run of the oldest that makes room. -/
theorem uploads_stay_under_cap (capBytes : Nat) :
    (∀ s t, Start capBytes s → Runs.Run (step capBytes) Alone s t → total t.files.rows ≤ capBytes) ∧
    (∀ s t, Start capBytes s → Runs.Run (step capBytes) (fun _ _ => True) s t → ∀ u ∈ t.uploads,
      u.tried <+: filesToEvict u.entries u.incoming capBytes ∧
        (u.checked → u.tried = filesToEvict u.entries u.incoming capBytes)) ∧
    ∀ (entries : List StoredFile) (incoming : Nat), incoming ≤ capBytes → ∃ k ≤ entries.length,
      filesToEvict entries incoming capBytes = ((oldestFirst entries).take k).map (·.name) ∧
        total ((oldestFirst entries).drop k) + incoming ≤ capBytes ∧
          ∀ j < k, capBytes < total ((oldestFirst entries).drop j) + incoming := by
  refine ⟨fun s t hs hrun => ?_, fun s t hs hrun u hu => ?_, fun _ _ => filesToEvict_spec⟩
  · have hbounded : Bounded capBytes True t :=
      hrun.invariant (fun m a t hm hC ht => hm.step (fun _ => hC) ht) (hs.bounded True)
    exact hbounded.total_le trivial
  · have hbounded : Bounded capBytes False t :=
      hrun.invariant (fun m a t hm _ ht => hm.step False.elim ht) (hs.bounded False)
    exact (hbounded.sound u hu).tried_isPrefix

/-! ### Two uploads at once -/

/-- So many files of the largest size, named `a`, `aa` and so on. -/
def fullFiles (count : Nat) : List StoredFile :=
  (List.range count).map fun i => { name := List.replicate (i + 1) 'a', mtimeMs := i, size := MAX_UPLOAD_BYTES }

/-- Nineteen files of the largest size: one more fits. -/
def nearlyFull : UploadDir := { files := ⟨fullFiles 19, by decide⟩ }

theorem start_nearlyFull : Start MAX_UPLOADS_TOTAL_BYTES nearlyFull := ⟨by decide +kernel, rfl⟩

/-- Two uploads list the directory, both are told that they fit, and the first writes. -/
def firstWrites : List Action :=
  [.upload MAX_UPLOAD_BYTES, .upload MAX_UPLOAD_BYTES, .readdir 0, .readdir 1] ++
    List.replicate 19 (.stat 0) ++ List.replicate 19 (.stat 1) ++ [.evict 0, .evict 1, .answer 0, .answer 1,
      .create 0 "b".toList 19, .write 0 MAX_UPLOAD_BYTES 19]

theorem uploads_stay_under_cap_first : ∃ t, Runs.Run (step MAX_UPLOADS_TOTAL_BYTES) Alone nearlyFull t ∧
    t.files.rows.length = 20 ∧ total t.files.rows ≤ MAX_UPLOADS_TOTAL_BYTES := by
  have hexec : (Runs.exec (step MAX_UPLOADS_TOTAL_BYTES) Alone nearlyFull firstWrites).any
      (fun t => t.files.rows.length = 20) = true := by decide +kernel
  obtain ⟨t, hrun, ht⟩ := Runs.exists_run_of_exec hexec
  exact ⟨t, hrun, by simpa using ht, (uploads_stay_under_cap MAX_UPLOADS_TOTAL_BYTES).1 _ _ start_nearlyFull hrun⟩

/-- When the second writes too, the files exceed the cap. -/
theorem two_uploads_exceed : Start MAX_UPLOADS_TOTAL_BYTES nearlyFull ∧
    ∃ t, Runs.Run (step MAX_UPLOADS_TOTAL_BYTES) (fun _ _ => True) nearlyFull t ∧
      MAX_UPLOADS_TOTAL_BYTES < total t.files.rows := by
  have hexec : (Runs.exec (step MAX_UPLOADS_TOTAL_BYTES) (fun _ _ => True) nearlyFull
      (firstWrites ++ [.create 1 "c".toList 20, .write 1 MAX_UPLOAD_BYTES 20])).any
        (fun t => MAX_UPLOADS_TOTAL_BYTES < total t.files.rows) = true := by decide +kernel
  obtain ⟨t, hrun, ht⟩ := Runs.exists_run_of_exec hexec
  exact ⟨start_nearlyFull, t, hrun, by simpa using ht⟩

end Sightr.Uploads
