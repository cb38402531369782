import Sightr.Files.Workdir
import Sightr.Lib.Fold

/-!
# A folder's zip

`planZip` of `bridge/workdir-zip.ts`: which files a folder's download holds. A child folder is walked breadth first,
links inside the work root followed, each folder once; a child that does not fit the caps is left out as a whole and
named in a note. The bytes of the archive are not modelled here.
-/

namespace Sightr.Files

open JsText FileTree

/-- A file of the archive; the note about the omitted children has no file behind it. -/
structure ZipFile where
  real : Option FilePath
  name : PathText
  size : Nat
  mtimeMs : Int
  deriving DecidableEq

inductive ZipPlanFailure
  | tooMany
  | tooLarge
  deriving DecidableEq

def SKIPPED_ZIP_ENTRY : Name := "SIGHTR-SKIPPED.txt".toList

structure ZipCaps where
  maxEntries : Nat
  capBytes : Nat

structure Collected where
  files : List ZipFile := []
  total : Nat := 0
  seen : List FilePath := []

structure ZipChild where
  name : Name
  dir : Bool
  files : List ZipFile
  total : Nat

structure ZipPlan where
  files : List ZipFile
  size : Nat

namespace WorkDir

variable (w : WorkDir) (caps : ZipCaps) (folder : FilePath)

/-- What an entry of a folder leads to, if that is in the root and the entry's name is not refused. -/
def zipEntry (n : FileNode Name FileInfo) : Option (FilePath × FileKindOf) :=
  if isRefusedName (nameOf n) then none
  else (w.containedRealpath (folder ++ [nameOf n])).bind fun real => (w.stat real).map (real, ·)

/-- The entries of one folder, with the folders to visit next. -/
def collectEntries (label : PathText) (deep : Bool) (folder : FilePath) (rel : List Name) :
    List (FileNode Name FileInfo) → Collected → List (FilePath × List Name) →
      Except ZipPlanFailure (Collected × List (FilePath × List Name))
  | [], st, next => .ok (st, next)
  | n :: rest, st, next =>
    match w.zipEntry folder n with
    | some (real, .dir) =>
      collectEntries label deep folder rel rest st (if deep then next ++ [(real, rel ++ [nameOf n])] else next)
    | some (real, .file info) =>
      let files := st.files ++ [{
        real := some real, name := joinPath (label :: rel ++ [nameOf n]), size := info.size, mtimeMs :=
          info.mtimeMs }]
      if caps.maxEntries < files.length then .error .tooMany
      else if caps.capBytes < st.total + info.size then .error .tooLarge
      else collectEntries label deep folder rel rest { st with files, total := st.total + info.size } next
    | _ => collectEntries label deep folder rel rest st next

def collectLevel (label : PathText) (deep : Bool) :
    List (FilePath × List Name) → Collected → List (FilePath × List Name) →
      Except ZipPlanFailure (Collected × List (FilePath × List Name))
  | [], st, next => .ok (st, next)
  | (folder, rel) :: rest, st, next =>
    if folder ∈ st.seen then collectLevel label deep rest st next
    else do
      let entries := ((w.tree.readdir folder).mergeSort w.entryOrder).take caps.maxEntries
      let after ← w.collectEntries caps label deep folder rel entries { st with seen := folder :: st.seen } next
      collectLevel label deep rest after.1 after.2

def collectFrom (label : PathText) : Nat → List (FilePath × List Name) → Collected → Except ZipPlanFailure Collected
  | 0, queue, st => do
    let after ← w.collectLevel caps label false queue st []
    return after.1
  | depth + 1, queue, st => do
    let after ← w.collectLevel caps label true queue st []
    collectFrom label depth after.2 after.1

def byName (a b : ZipFile) : Bool := w.localeCompare a.name b.name

variable (maxDepth : Nat)

/-- The files below a child folder, with their bytes. -/
def collectZipEntries (label : PathText) : Except ZipPlanFailure (List ZipFile × Nat) := do
  let st ← w.collectFrom caps label maxDepth [(folder, [])] {}
  return (st.files.mergeSort w.byName, st.total)

/-- The children of the folder: those collected, and the names of those left out. -/
def packEntries (folder : FilePath) (maxDepth : Nat) (label : PathText) :
    List (FileNode Name FileInfo) → List ZipChild → List PathText → List ZipChild × List PathText
  | [], included, omitted => (included, omitted)
  | n :: rest, included, omitted =>
    if nameOf n = SKIPPED_ZIP_ENTRY then packEntries folder maxDepth label rest included omitted
    else match w.zipEntry folder n, maxDepth with
      | some (real, .file info), _ =>
        if caps.capBytes < info.size then packEntries folder maxDepth label rest included (omitted ++ [nameOf n])
        else packEntries folder maxDepth label rest (included ++ [{
          name := nameOf n, dir := false, total := info.size
          files := [{
            real := some real, name := joinPath [label, nameOf n], size := info.size, mtimeMs := info.mtimeMs }]
              }]) omitted
      | some (real, .dir), depth + 1 =>
        match w.collectZipEntries caps real depth (joinPath [label, nameOf n]) with
        | .error _ => packEntries folder maxDepth label rest included (omitted ++ [nameOf n ++ ['/']])
        | .ok (files, total) =>
          packEntries folder maxDepth label rest (included ++ [{ name := nameOf n, dir := true, files, total }])
            omitted
      | _, _ => packEntries folder maxDepth label rest included omitted

/-- The child folder that takes up the most, the first of equals. -/
def fattest (overBytes : Bool) (included : List ZipChild) : Option Nat :=
  let larger (a b : ZipChild) : Bool := if overBytes then b.total < a.total else b.files.length < a.files.length
  (included.zipIdx.foldl (fun (best : Option (ZipChild × Nat)) c =>
    if !c.1.dir then best
    else match best with
      | none => some c
      | some b => if larger c.1 b.1 then some c else best) none).map (·.2)

/-- Child folders are dropped, the fattest first, until the rest fits; each drop shortens the list. -/
def dropFattest : Nat → List ZipChild → List PathText → Except ZipPlanFailure (List ZipChild × List PathText)
  | fuel, included, omitted =>
    let overBytes := caps.capBytes < (included.map (·.total)).sum
    let overCount := caps.maxEntries < (included.map (·.files.length)).sum
    if !overBytes && !overCount then .ok (included, omitted)
    else match fuel, fattest overBytes included with
      | _, none => .error (if overBytes then .tooLarge else .tooMany)
      | 0, some _ => .ok (included, omitted)
      | fuel + 1, some i =>
        dropFattest fuel (included.eraseIdx i) (omitted ++ (included[i]?.map (·.name ++ ['/'])).toList)

def packChildren (label : PathText) : Except ZipPlanFailure (List ZipFile × List PathText) := do
  let packed := w.packEntries caps folder maxDepth label (w.tree.readdir folder) [] []
  let kept ← dropFattest caps packed.1.length packed.1 packed.2
  return (kept.1.flatMap (·.files), kept.2)

def skipNote (omitted : List PathText) : List Char :=
  let mb := (caps.capBytes + 512 * 1024) / (1024 * 1024)
  "Sightr left these out of the zip (over the ".toList ++ (toString mb).toList ++ " MB / ".toList ++
    (toString caps.maxEntries).toList ++ " file cap):\n\n".toList ++ List.intercalate ['\n'] omitted ++
    "\n\nDownload a skipped folder on its own to try it separately.\n".toList

def archiveSize (files : List ZipFile) : Nat :=
  (files.map fun f => 30 + utf8Bytes f.name + f.size + 46 + utf8Bytes f.name).sum + 22

/-- The plan of a folder's zip; `now` is the note's time. -/
def planZip (label : PathText) (now : Int) : Except ZipPlanFailure ZipPlan := do
  let packed ← w.packChildren caps folder maxDepth label
  let note : List ZipFile :=
    if packed.2.isEmpty then []
    else [{
      real := none, name := joinPath [label, SKIPPED_ZIP_ENTRY], mtimeMs := now
      size := utf8Bytes (skipNote caps (packed.2.mergeSort w.localeCompare)) }]
  let files := (packed.1 ++ note).mergeSort w.byName
  return { files, size := archiveSize files }

/-! ### What a plan holds -/

/-- A file reached from a folder in at most so many entries, none with a refused name. -/
def ReachesIn : Nat → FilePath → FilePath → Prop
  | 0, _, _ => False
  | steps + 1, folder, file => ∃ n ∈ w.tree.readdir folder,
      (∃ info, w.zipEntry folder n = some (file, .file info)) ∨
        ∃ child, w.zipEntry folder n = some (child, .dir) ∧ ReachesIn steps child file

def Packable (file : FilePath) : Prop :=
  ∃ n ∈ w.tree.readdir folder, nameOf n ≠ SKIPPED_ZIP_ENTRY ∧
    ((∃ info, w.zipEntry folder n = some (file, .file info)) ∨
      ∃ child, w.zipEntry folder n = some (child, .dir) ∧ w.ReachesIn maxDepth child file)

/-- As `ReachesIn`, where no folder on the way has more entries than the cap. -/
def ReachesInRoom : Nat → FilePath → FilePath → Prop
  | 0, _, _ => False
  | steps + 1, folder, file => (w.tree.readdir folder).length ≤ caps.maxEntries ∧ ∃ n ∈ w.tree.readdir folder,
      (∃ info, w.zipEntry folder n = some (file, .file info)) ∨
        ∃ child, w.zipEntry folder n = some (child, .dir) ∧ ReachesInRoom steps child file

variable {w caps} {folder file : FilePath} {label : PathText} {deep : Bool} {rel : List Name}

theorem ReachesIn.room (hroom : ∀ d, (w.tree.readdir d).length ≤ caps.maxEntries) {steps : Nat}
    (h : w.ReachesIn steps folder file) : w.ReachesInRoom caps steps folder file := by
  induction steps generalizing folder with
  | zero => exact h.elim
  | succ steps ih =>
    obtain ⟨n, hn, hfile | ⟨child, hchild, hrest⟩⟩ := h
    · exact ⟨hroom folder, n, hn, .inl hfile⟩
    · exact ⟨hroom folder, n, hn, .inr ⟨child, hchild, ih hrest⟩⟩

/-! ### A plan holds nothing else -/

/-- The files collected are in `G`, and so is every file that a folder to visit still reaches. -/
private structure Walked (w : WorkDir) (G : FilePath → Prop) (steps : Nat) (st : Collected)
    (next : List (FilePath × List Name)) : Prop where
  files : ∀ f ∈ st.files, ∃ real, f.real = some real ∧ G real
  next : ∀ p ∈ next, ∀ file, w.ReachesIn steps p.1 file → G file

variable {G : FilePath → Prop} {steps : Nat}

variable {entries : List (FileNode Name FileInfo)} {st : Collected} {next : List (FilePath × List Name)}
  {after : Collected × List (FilePath × List Name)}

private theorem Walked.collectEntries (h : w.Walked G steps st next)
    (hfolder : ∀ file, w.ReachesIn (steps + 1) folder file → G file)
    (hentries : ∀ n ∈ entries, n ∈ w.tree.readdir folder)
    (hafter : w.collectEntries caps label deep folder rel entries st next = .ok after) :
    w.Walked G steps after.1 after.2 := by
  fun_induction WorkDir.collectEntries w caps label deep folder rel entries st next with
  | case1 =>
    obtain rfl := Except.ok.inj hafter
    exact h
  | case2 n rest st next real hentry ih =>
    refine ih ⟨h.files, ?_⟩ (fun m hm => hentries m (List.mem_cons_of_mem n hm)) hafter
    split_ifs
    · intro p hp
      rcases List.mem_append.mp hp with hp | hp
      · exact h.next p hp
      · rw [List.mem_singleton.mp hp]
        exact fun file hfile => hfolder file ⟨n, hentries n List.mem_cons_self, .inr ⟨real, hentry, hfile⟩⟩
    · exact h.next
  | case3 => cases hafter
  | case4 => cases hafter
  | case5 n rest st next real info hentry files hmany hlarge ih =>
    refine ih ⟨fun f hf => ?_, h.next⟩ (fun m hm => hentries m (List.mem_cons_of_mem n hm)) hafter
    rcases List.mem_append.mp hf with hf | hf
    · exact h.files f hf
    · rw [List.mem_singleton.mp hf]
      exact ⟨real, rfl, hfolder real ⟨n, hentries n List.mem_cons_self, .inl ⟨info, hentry⟩⟩⟩
  | case6 n rest st next hother hother' ih => exact ih h (fun m hm => hentries m (List.mem_cons_of_mem n hm)) hafter

variable {queue : List (FilePath × List Name)}

private theorem Walked.collectLevel (h : w.Walked G steps st next)
    (hqueue : ∀ p ∈ queue, ∀ file, w.ReachesIn (steps + 1) p.1 file → G file)
    (hafter : w.collectLevel caps label deep queue st next = .ok after) : w.Walked G steps after.1 after.2 := by
  induction queue generalizing st next with
  | nil =>
    obtain rfl := Except.ok.inj hafter
    exact h
  | cons p rest ih =>
    have hrest := fun m hm => hqueue m (List.mem_cons_of_mem p hm)
    rw [WorkDir.collectLevel] at hafter
    split_ifs at hafter
    · exact ih h hrest hafter
    · obtain ⟨between, hentries, hafter⟩ := Except.bind_eq_ok.mp hafter
      have hseen : w.Walked G steps { st with seen := p.1 :: st.seen } next := ⟨h.files, h.next⟩
      refine ih (Walked.collectEntries hseen (hqueue p List.mem_cons_self) (fun n hn => ?_) hentries) hrest hafter
      exact List.mem_mergeSort.mp (List.mem_of_mem_take hn)

variable {depth : Nat} {last : Collected}

private theorem Walked.collectFrom (h : w.Walked G (depth + 1) st queue)
    (hlast : w.collectFrom caps label depth queue st = .ok last) :
    ∀ f ∈ last.files, ∃ real, f.real = some real ∧ G real := by
  induction depth generalizing queue st with
  | zero =>
    obtain ⟨after, hlevel, hpure⟩ := Except.bind_eq_ok.mp hlast
    obtain rfl := Except.ok.inj hpure
    exact (Walked.collectLevel ⟨h.files, by simp⟩ h.next hlevel).files
  | succ depth ih =>
    obtain ⟨after, hlevel, hrest⟩ := Except.bind_eq_ok.mp hlast
    exact ih (Walked.collectLevel ⟨h.files, by simp⟩ h.next hlevel) hrest

variable {maxDepth total : Nat} {files : List ZipFile}

theorem reachesIn_of_mem_collectZipEntries (h : w.collectZipEntries caps folder maxDepth label = .ok (files, total)) :
    ∀ f ∈ files, ∃ real, f.real = some real ∧ w.ReachesIn (maxDepth + 1) folder real := by
  obtain ⟨last, hlast, hpure⟩ := Except.bind_eq_ok.mp h
  obtain ⟨rfl, rfl⟩ := Prod.mk.inj (Except.ok.inj hpure)
  have hstart : w.Walked (w.ReachesIn (maxDepth + 1) folder) (maxDepth + 1) {} [(folder, [])] := ⟨by simp, by simp⟩
  have hwalked := Walked.collectFrom hstart hlast
  exact fun f hf => hwalked f (List.mem_mergeSort.mp hf)

variable {included : List ZipChild} {omitted : List PathText}

theorem packable_of_packEntries (hentries : ∀ n ∈ entries, n ∈ w.tree.readdir folder)
    (h : ∀ c ∈ included, ∀ f ∈ c.files, ∃ real, f.real = some real ∧ w.Packable folder maxDepth real) :
    ∀ c ∈ (w.packEntries caps folder maxDepth label entries included omitted).1, ∀ f ∈ c.files,
      ∃ real, f.real = some real ∧ w.Packable folder maxDepth real := by
  have hadd : ∀ (included : List ZipChild) (c : ZipChild),
      (∀ c ∈ included, ∀ f ∈ c.files, ∃ real, f.real = some real ∧ w.Packable folder maxDepth real) →
      (∀ f ∈ c.files, ∃ real, f.real = some real ∧ w.Packable folder maxDepth real) →
      ∀ d ∈ included ++ [c], ∀ f ∈ d.files, ∃ real, f.real = some real ∧ w.Packable folder maxDepth real := by
    intro included c h hc d hd
    rcases List.mem_append.mp hd with hd | hd
    · exact h d hd
    · rw [List.mem_singleton.mp hd]
      exact hc
  fun_induction packEntries w caps folder maxDepth label entries included omitted with
  | case1 => exact h
  | case2 n rest included omitted hskip ih => exact ih (fun m hm => hentries m (List.mem_cons_of_mem n hm)) h
  | case3 n rest included omitted hskip real info hentry hlarge ih =>
    exact ih (fun m hm => hentries m (List.mem_cons_of_mem n hm)) h
  | case4 n rest included omitted hskip real info hentry hfits ih =>
    refine ih (fun m hm => hentries m (List.mem_cons_of_mem n hm)) (hadd _ _ h fun f hf => ?_)
    rw [List.mem_singleton.mp hf]
    exact ⟨real, rfl, n, hentries n List.mem_cons_self, hskip, .inl ⟨info, hentry⟩⟩
  | case5 n rest included omitted hskip real depth hdepth hentry failure hcollect ih =>
    subst hdepth
    exact ih (fun m hm => hentries m (List.mem_cons_of_mem n hm)) h
  | case6 n rest included omitted hskip real depth hdepth hentry files total hcollect ih =>
    subst hdepth
    refine ih (fun m hm => hentries m (List.mem_cons_of_mem n hm)) (hadd _ _ h fun f hf => ?_)
    obtain ⟨found, hfound, hreaches⟩ := reachesIn_of_mem_collectZipEntries hcollect f hf
    exact ⟨found, hfound, n, hentries n List.mem_cons_self, hskip, .inr ⟨real, hentry, hreaches⟩⟩
  | case7 n rest included omitted hskip hother hother' ih =>
    exact ih (fun m hm => hentries m (List.mem_cons_of_mem n hm)) h

variable {fuel : Nat} {kept : List ZipChild} {dropped : List PathText}

theorem mem_of_dropFattest (h : dropFattest caps fuel included omitted = .ok (kept, dropped)) :
    ∀ c ∈ kept, c ∈ included := by
  fun_induction dropFattest caps fuel included omitted with
  | case1 fuel included omitted overBytes overCount hfits =>
    obtain ⟨rfl, -⟩ := Prod.mk.inj (Except.ok.inj h)
    exact fun c hc => hc
  | case2 => cases h
  | case3 =>
    obtain ⟨rfl, -⟩ := Prod.mk.inj (Except.ok.inj h)
    exact fun c hc => hc
  | case4 included omitted overBytes overCount hfits fuel i hfattest ih =>
    exact fun c hc => List.mem_of_mem_eraseIdx (ih h c hc)

theorem packable_of_mem_planZip {now : Int} {plan : ZipPlan} (h : w.planZip caps folder maxDepth label now = .ok plan)
    {f : ZipFile} (hf : f ∈ plan.files) :
    f.real = none ∨ ∃ real, f.real = some real ∧ w.Packable folder maxDepth real := by
  obtain ⟨packed, hpacked, hplan⟩ := Except.bind_eq_ok.mp h
  obtain ⟨kept, hkept, hpure⟩ := Except.bind_eq_ok.mp hpacked
  obtain rfl := Except.ok.inj hplan
  obtain rfl := Except.ok.inj hpure
  rcases List.mem_append.mp (List.mem_mergeSort.mp hf) with hf | hf
  · obtain ⟨c, hc, hfile⟩ := List.mem_flatMap.mp hf
    exact .inr (packable_of_packEntries (fun _ hn => hn) (by simp) c (mem_of_dropFattest hkept c hc) f hfile)
  · split_ifs at hf
    · cases hf
    · rw [List.mem_singleton.mp hf]
      exact .inl rfl

/-! ### What is not in a plan is in its note -/

/-- The files in the folders visited are collected, where a folder has room. -/
private def FilesIn (w : WorkDir) (caps : ZipCaps) (st : Collected) : Prop :=
  ∀ d ∈ st.seen, (w.tree.readdir d).length ≤ caps.maxEntries → ∀ n ∈ w.tree.readdir d, ∀ real info,
    w.zipEntry d n = some (real, .file info) → ∃ f ∈ st.files, f.real = some real

/-- The folders in the folders visited are visited too, or are to be, where a folder has room. -/
private def DirsIn (w : WorkDir) (caps : ZipCaps) (st : Collected) (pending : List (FilePath × List Name)) : Prop :=
  ∀ d ∈ st.seen, (w.tree.readdir d).length ≤ caps.maxEntries → ∀ n ∈ w.tree.readdir d, ∀ child,
    w.zipEntry d n = some (child, .dir) → child ∈ st.seen ∨ ∃ p ∈ pending, p.1 = child

theorem collectEntries_grows (h : w.collectEntries caps label deep folder rel entries st next = .ok after) :
    (∀ f ∈ st.files, f ∈ after.1.files) ∧ after.1.seen = st.seen ∧ (∀ p ∈ next, p ∈ after.2) := by
  fun_induction WorkDir.collectEntries w caps label deep folder rel entries st next with
  | case1 =>
    obtain rfl := Except.ok.inj h
    exact ⟨fun _ hf => hf, rfl, fun _ hp => hp⟩
  | case2 n rest st next real hentry ih =>
    obtain ⟨hfiles, hseen, hnext⟩ := ih h
    refine ⟨hfiles, hseen, fun p hp => hnext p ?_⟩
    split_ifs
    · exact List.mem_append_left _ hp
    · exact hp
  | case3 => cases h
  | case4 => cases h
  | case5 n rest st next real info hentry files hmany hlarge ih =>
    obtain ⟨hfiles, hseen, hnext⟩ := ih h
    exact ⟨fun f hf => hfiles f (List.mem_append_left _ hf), hseen, hnext⟩
  | case6 n rest st next hother hother' ih => exact ih h

variable {n : FileNode Name FileInfo}

theorem mem_of_collectEntries (h : w.collectEntries caps label deep folder rel entries st next = .ok after)
    (hn : n ∈ entries) :
    (∀ real info, w.zipEntry folder n = some (real, .file info) → ∃ f ∈ after.1.files, f.real = some real) ∧
      (deep → ∀ child, w.zipEntry folder n = some (child, .dir) → ∃ p ∈ after.2, p.1 = child) := by
  fun_induction WorkDir.collectEntries w caps label deep folder rel entries st next with
  | case1 => cases hn
  | case2 m rest st next real hentry ih =>
    rcases List.mem_cons.mp hn with rfl | hn
    · refine ⟨fun file info hfile => by simp [hentry] at hfile, fun hdeep child hchild => ?_⟩
      obtain rfl : real = child := by simpa [hentry] using hchild
      refine ⟨(real, rel ++ [nameOf n]), (collectEntries_grows h).2.2 _ ?_, rfl⟩
      rw [if_pos hdeep]
      exact List.mem_append_right _ (List.mem_singleton_self _)
    · exact ih h hn
  | case3 => cases h
  | case4 => cases h
  | case5 m rest st next real info hentry files hmany hlarge ih =>
    rcases List.mem_cons.mp hn with rfl | hn
    · refine ⟨fun file other hfile => ?_, fun hdeep child hchild => by simp [hentry] at hchild⟩
      obtain ⟨rfl, rfl⟩ : real = file ∧ info = other := by simpa [hentry] using hfile
      exact ⟨_, (collectEntries_grows h).1 _ (List.mem_append_right _ (List.mem_singleton_self _)), rfl⟩
    · exact ih h hn
  | case6 m rest st next hdir hfile ih =>
    rcases List.mem_cons.mp hn with rfl | hn
    · exact ⟨fun real info h => absurd h (hfile real info), fun _ child h => absurd h (hdir child)⟩
    · exact ih h hn

theorem collectLevel_covers (h : w.collectLevel caps label deep queue st next = .ok after) :
    (FilesIn w caps st → FilesIn w caps after.1) ∧
      (deep → DirsIn w caps st (queue ++ next) → DirsIn w caps after.1 after.2) ∧
      (∀ d ∈ st.seen, d ∈ after.1.seen) ∧ ∀ p ∈ queue, p.1 ∈ after.1.seen := by
  induction queue generalizing st next with
  | nil =>
    obtain rfl := Except.ok.inj h
    exact ⟨id, fun _ hdirs => hdirs, fun _ hd => hd, by simp⟩
  | cons p rest ih =>
    rw [WorkDir.collectLevel] at h
    split_ifs at h with hseen
    · obtain ⟨hfiles, hdirs, hold, hrest⟩ := ih h
      refine ⟨hfiles, fun hdeep hin => hdirs hdeep fun d hd hroom n hn child hchild => ?_, hold, fun q hq => ?_⟩
      · obtain hmem | ⟨q, hq, rfl⟩ := hin d hd hroom n hn child hchild
        · exact .inl hmem
        · rcases List.mem_cons.mp hq with rfl | hq
          · exact .inl hseen
          · exact .inr ⟨q, hq, rfl⟩
      · rcases List.mem_cons.mp hq with rfl | hq
        · exact hold _ hseen
        · exact hrest q hq
    · obtain ⟨between, hentries, hafter⟩ := Except.bind_eq_ok.mp h
      obtain ⟨hfiles, hdirs, hold, hrest⟩ := ih hafter
      obtain ⟨hgrow, hsame, hnext⟩ := collectEntries_grows hentries
      have hall : (w.tree.readdir p.1).length ≤ caps.maxEntries → ∀ n ∈ w.tree.readdir p.1,
          n ∈ ((w.tree.readdir p.1).mergeSort w.entryOrder).take caps.maxEntries := by
        intro hroom n hn
        rw [List.take_of_length_le (by rw [List.length_mergeSort]; exact hroom)]
        exact List.mem_mergeSort.mpr hn
      refine ⟨fun hin => hfiles fun d hd hroom n hn real info hfile => ?_,
        fun hdeep hin => hdirs hdeep fun d hd hroom n hn child hchild => ?_, fun d hd => hold d ?_, fun q hq => ?_⟩
      · rw [hsame] at hd
        rcases List.mem_cons.mp hd with rfl | hd
        · exact (mem_of_collectEntries hentries (hall hroom n hn)).1 real info hfile
        · obtain ⟨f, hf, hreal⟩ := hin d hd hroom n hn real info hfile
          exact ⟨f, hgrow f hf, hreal⟩
      · rw [hsame] at hd ⊢
        rcases List.mem_cons.mp hd with rfl | hd
        · obtain ⟨q, hq, rfl⟩ := (mem_of_collectEntries hentries (hall hroom n hn)).2 hdeep child hchild
          exact .inr ⟨q, List.mem_append_right _ hq, rfl⟩
        · obtain hmem | ⟨q, hq, rfl⟩ := hin d hd hroom n hn child hchild
          · exact .inl (List.mem_cons_of_mem _ hmem)
          · rcases List.mem_cons.mp hq with rfl | hq
            · exact .inl List.mem_cons_self
            · rcases List.mem_append.mp hq with hq | hq
              · exact .inr ⟨q, List.mem_append_left _ hq, rfl⟩
              · exact .inr ⟨q, List.mem_append_right _ (hnext q hq), rfl⟩
      · rw [hsame]
        exact List.mem_cons_of_mem _ hd
      · rcases List.mem_cons.mp hq with rfl | hq
        · exact hold _ (by rw [hsame]; exact List.mem_cons_self)
        · exact hrest q hq

theorem collectFrom_covers (hfiles : FilesIn w caps st) (hdirs : DirsIn w caps st queue)
    (h : w.collectFrom caps label depth queue st = .ok last) :
    (∀ d ∈ st.seen, w.ReachesInRoom caps (depth + 2) d file → ∃ f ∈ last.files, f.real = some file) ∧
      ∀ p ∈ queue, w.ReachesInRoom caps (depth + 1) p.1 file → ∃ f ∈ last.files, f.real = some file := by
  induction depth generalizing queue st with
  | zero =>
    obtain ⟨after, hlevel, hpure⟩ := Except.bind_eq_ok.mp h
    obtain rfl := Except.ok.inj hpure
    obtain ⟨hcovered, -, hold, hqueue⟩ := collectLevel_covers hlevel
    have hone : ∀ d ∈ after.1.seen, w.ReachesInRoom caps 1 d file → ∃ f ∈ after.1.files, f.real = some file := by
      rintro d hd ⟨hroom, n, hn, ⟨info, hfile⟩ | ⟨_, -, hnone⟩⟩
      · exact hcovered hfiles d hd hroom n hn file info hfile
      · exact hnone.elim
    refine ⟨fun d hd hreach => ?_, fun p hp => hone p.1 (hqueue p hp)⟩
    obtain ⟨hroom, n, hn, hfile | ⟨child, hchild, hrest⟩⟩ := hreach
    · exact hone d (hold d hd) ⟨hroom, n, hn, .inl hfile⟩
    · obtain hmem | ⟨p, hp, rfl⟩ := hdirs d hd hroom n hn child hchild
      · exact hone child (hold child hmem) hrest
      · exact hone p.1 (hqueue p hp) hrest
  | succ depth ih =>
    obtain ⟨after, hlevel, hafter⟩ := Except.bind_eq_ok.mp h
    obtain ⟨hcovered, hpending, hold, hqueue⟩ := collectLevel_covers hlevel
    have hlater := (ih (hcovered hfiles) (hpending rfl (by simpa using hdirs)) hafter).1
    refine ⟨fun d hd hreach => ?_, fun p hp => hlater p.1 (hqueue p hp)⟩
    obtain ⟨hroom, n, hn, hfile | ⟨child, hchild, hrest⟩⟩ := hreach
    · exact hlater d (hold d hd) ⟨hroom, n, hn, .inl hfile⟩
    · obtain hmem | ⟨p, hp, rfl⟩ := hdirs d hd hroom n hn child hchild
      · exact hlater child (hold child hmem) hrest
      · exact hlater p.1 (hqueue p hp) hrest

theorem mem_collectZipEntries (h : w.collectZipEntries caps folder maxDepth label = .ok (files, total))
    (hreach : w.ReachesInRoom caps (maxDepth + 1) folder file) : ∃ f ∈ files, f.real = some file := by
  obtain ⟨last, hlast, hpure⟩ := Except.bind_eq_ok.mp h
  obtain ⟨rfl, rfl⟩ := Prod.mk.inj (Except.ok.inj hpure)
  obtain ⟨f, hf, hreal⟩ := (collectFrom_covers (fun d hd => by simp at hd) (fun d hd => by simp at hd) hlast).2
    (folder, []) (List.mem_singleton_self _) hreach
  exact ⟨f, List.mem_mergeSort.mpr hf, hreal⟩

theorem packEntries_grows :
    (∀ c ∈ included, c ∈ (w.packEntries caps folder maxDepth label entries included omitted).1) ∧
      ∀ name ∈ omitted, name ∈ (w.packEntries caps folder maxDepth label entries included omitted).2 := by
  fun_induction packEntries w caps folder maxDepth label entries included omitted with
  | case1 => exact ⟨fun _ hc => hc, fun _ hname => hname⟩
  | case2 n rest included omitted hskip ih => exact ih
  | case3 n rest included omitted hskip real info hentry hlarge ih =>
    exact ⟨ih.1, fun name hname => ih.2 name (List.mem_append_left _ hname)⟩
  | case4 n rest included omitted hskip real info hentry hfits ih =>
    exact ⟨fun c hc => ih.1 c (List.mem_append_left _ hc), ih.2⟩
  | case5 n rest included omitted hskip real depth hdepth hentry failure hcollect ih =>
    subst hdepth
    exact ⟨ih.1, fun name hname => ih.2 name (List.mem_append_left _ hname)⟩
  | case6 n rest included omitted hskip real depth hdepth hentry files total hcollect ih =>
    subst hdepth
    exact ⟨fun c hc => ih.1 c (List.mem_append_left _ hc), ih.2⟩
  | case7 n rest included omitted hskip hother hother' ih => exact ih

theorem mem_of_packEntries (hn : n ∈ entries) (hname : nameOf n ≠ SKIPPED_ZIP_ENTRY)
    (hfile : (∃ info, w.zipEntry folder n = some (file, .file info)) ∨ ∃ child, w.zipEntry folder n =
      some (child, .dir) ∧ w.ReachesInRoom caps maxDepth child file) :
    (∃ c ∈ (w.packEntries caps folder maxDepth label entries included omitted).1,
        c.name = nameOf n ∧ ∃ f ∈ c.files, f.real = some file) ∨
      nameOf n ∈ (w.packEntries caps folder maxDepth label entries included omitted).2 ∨
      nameOf n ++ ['/'] ∈ (w.packEntries caps folder maxDepth label entries included omitted).2 := by
  fun_induction packEntries w caps folder maxDepth label entries included omitted with
  | case1 => cases hn
  | case2 m rest included omitted hskip ih =>
    rcases List.mem_cons.mp hn with rfl | hn
    · exact absurd hskip hname
    · exact ih hn
  | case3 m rest included omitted hskip real info hentry hlarge ih =>
    rcases List.mem_cons.mp hn with rfl | hn
    · exact .inr (.inl (packEntries_grows.2 _ (List.mem_append_right _ (List.mem_singleton_self _))))
    · exact ih hn
  | case4 m rest included omitted hskip real info hentry hfits ih =>
    rcases List.mem_cons.mp hn with rfl | hn
    · obtain ⟨other, hother⟩ | ⟨child, hchild, -⟩ := hfile
      · obtain ⟨rfl, -⟩ : real = file ∧ info = other := by simpa [hentry] using hother
        exact .inl ⟨_, packEntries_grows.1 _ (List.mem_append_right _ (List.mem_singleton_self _)), rfl, _,
          List.mem_singleton_self _, rfl⟩
      · simp [hentry] at hchild
    · exact ih hn
  | case5 m rest included omitted hskip real depth hdepth hentry failure hcollect ih =>
    subst hdepth
    rcases List.mem_cons.mp hn with rfl | hn
    · exact .inr (.inr (packEntries_grows.2 _ (List.mem_append_right _ (List.mem_singleton_self _))))
    · exact ih hn
  | case6 m rest included omitted hskip real depth hdepth hentry files total hcollect ih =>
    subst hdepth
    rcases List.mem_cons.mp hn with rfl | hn
    · obtain ⟨other, hother⟩ | ⟨child, hchild, hreach⟩ := hfile
      · simp [hentry] at hother
      · obtain rfl : real = child := by simpa [hentry] using hchild
        obtain ⟨f, hf, hreal⟩ := mem_collectZipEntries hcollect hreach
        exact .inl ⟨_, packEntries_grows.1 _ (List.mem_append_right _ (List.mem_singleton_self _)), rfl, f, hf, hreal⟩
    · exact ih hn
  | case7 m rest included omitted hskip hother hother' ih =>
    rcases List.mem_cons.mp hn with rfl | hn
    · obtain ⟨info, hinfo⟩ | ⟨child, hchild, hreach⟩ := hfile
      · exact absurd hinfo (hother _ info)
      · cases maxDepth with
        | zero => exact hreach.elim
        | succ depth => exact absurd hchild fun hentry => hother' child depth hentry rfl
    · exact ih hn

theorem mem_of_foldl_pick {α : Type*} {step : Option α → α → Option α}
    (hstep : ∀ best c, step best c = best ∨ step best c = some c) {l : List α} {best : Option α} {x : α}
    (h : l.foldl step best = some x) : best = some x ∨ x ∈ l := by
  induction l generalizing best with
  | nil => exact .inl h
  | cons c rest ih =>
    obtain hbest | hmem := ih h
    · obtain hsame | hpick := hstep best c
      · exact .inl (hsame ▸ hbest)
      · rw [hpick] at hbest
        exact .inr (Option.some.inj hbest ▸ List.mem_cons_self)
    · exact .inr (List.mem_cons_of_mem c hmem)

theorem lt_of_fattest {overBytes : Bool} {i : Nat} (h : fattest overBytes included = some i) :
    i < included.length := by
  obtain ⟨⟨c, j⟩, hpick, rfl⟩ := Option.map_eq_some_iff.mp h
  obtain hnone | hmem := mem_of_foldl_pick (fun best c => by
    by_cases hdir : c.1.dir
    · cases best with
      | none => exact .inr (by simp [hdir])
      | some b =>
        simp only [hdir, Bool.not_true, Bool.false_eq_true, if_false]
        exact (ite_eq_or_eq _ _ _).symm
    · exact .inl (by simp [hdir])) hpick
  · cases hnone
  · exact (List.mem_zipIdx' hmem).1

theorem kept_of_dropFattest (h : dropFattest caps fuel included omitted = .ok (kept, dropped)) :
    (∀ name ∈ omitted, name ∈ dropped) ∧ ∀ c ∈ included, c ∈ kept ∨ c.name ++ ['/'] ∈ dropped := by
  fun_induction dropFattest caps fuel included omitted with
  | case1 fuel included omitted overBytes overCount hfits =>
    obtain ⟨rfl, rfl⟩ := Prod.mk.inj (Except.ok.inj h)
    exact ⟨fun _ hname => hname, fun _ hc => .inl hc⟩
  | case2 => cases h
  | case3 =>
    obtain ⟨rfl, rfl⟩ := Prod.mk.inj (Except.ok.inj h)
    exact ⟨fun _ hname => hname, fun _ hc => .inl hc⟩
  | case4 included omitted overBytes overCount hfits fuel i hfattest ih =>
    obtain ⟨hdropped, hkept⟩ := ih h
    refine ⟨fun name hname => hdropped name (List.mem_append_left _ hname), fun c hc => ?_⟩
    have hi := lt_of_fattest hfattest
    obtain ⟨j, hj, rfl⟩ := List.mem_iff_getElem.mp hc
    by_cases hij : j = i
    · subst hij
      exact .inr (hdropped _ (List.mem_append_right _ (by
        rw [List.getElem?_eq_getElem hi]
        exact List.mem_singleton_self _)))
    · exact hkept _ (List.mem_eraseIdx_iff_getElem.mpr ⟨j, hj, hij, rfl⟩)

/-- Each file that an entry of the folder leads to is among the files packed, or the entry is omitted. -/
theorem mem_packChildren (h : w.packChildren caps folder maxDepth label = .ok (files, omitted))
    (hn : n ∈ w.tree.readdir folder) (hname : nameOf n ≠ SKIPPED_ZIP_ENTRY)
    (hfile : (∃ info, w.zipEntry folder n = some (file, .file info)) ∨ ∃ child, w.zipEntry folder n =
      some (child, .dir) ∧ w.ReachesInRoom caps maxDepth child file) :
    (∃ f ∈ files, f.real = some file) ∨ nameOf n ∈ omitted ∨ nameOf n ++ ['/'] ∈ omitted := by
  obtain ⟨⟨kept, dropped⟩, hkept, hpure⟩ := Except.bind_eq_ok.mp h
  obtain ⟨rfl, rfl⟩ := Prod.mk.inj (Except.ok.inj hpure)
  obtain ⟨hdropped, hin⟩ := kept_of_dropFattest hkept
  obtain ⟨c, hc, hsame, f, hf, hreal⟩ | homitted | homitted := mem_of_packEntries hn hname hfile
  · obtain hmem | hmem := hin c hc
    · exact .inl ⟨f, List.mem_flatMap.mpr ⟨c, hmem, hf⟩, hreal⟩
    · exact .inr (.inr (hsame ▸ hmem))
  · exact .inr (.inl (hdropped _ homitted))
  · exact .inr (.inr (hdropped _ homitted))

/-- A plan that omits nothing, of a tree where no folder has more entries than the cap, holds every file that the
folder's zip may hold. -/
theorem mem_planZip_of_packable (hroom : ∀ d, (w.tree.readdir d).length ≤ caps.maxEntries) (now : Int)
    {packed : List ZipFile} (hpacked : w.packChildren caps folder maxDepth label = .ok (packed, []))
    (hfile : w.Packable folder maxDepth file) :
    ∃ plan, w.planZip caps folder maxDepth label now = .ok plan ∧ ∃ f ∈ plan.files, f.real = some file := by
  obtain ⟨n, hn, hname, hleads⟩ := hfile
  have hroomy : (∃ info, w.zipEntry folder n = some (file, .file info)) ∨
      ∃ child, w.zipEntry folder n = some (child, .dir) ∧ w.ReachesInRoom caps maxDepth child file := by
    obtain hinfo | ⟨child, hchild, hreach⟩ := hleads
    · exact .inl hinfo
    · exact .inr ⟨child, hchild, hreach.room hroom⟩
  obtain ⟨f, hf, hreal⟩ | homitted | homitted := mem_packChildren hpacked hn hname hroomy
  · refine ⟨_, by rw [planZip, hpacked]; rfl, f, ?_, hreal⟩
    exact List.mem_mergeSort.mpr (List.mem_append_left _ hf)
  · cases homitted
  · cases homitted

end WorkDir

end Sightr.Files
