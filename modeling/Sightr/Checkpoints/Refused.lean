import Sightr.Checkpoints.Snapshot

/-!
# No refused name in a snapshot

What the temp index and the finished tree hold, over every run of a snapshot: paths of the real index and untracked
files that passed the caps, none of them hidden. Every filter of the code looks at single paths, and so does
`update-index`; `add` expands a folder, so the rules hold as long as no pathspec names a folder with a refused or an
unchecked file below it at the moment of the call.
-/

namespace Sightr.Checkpoints.Snapshot

open Files Runs

variable {c : SnapshotConfig} {S : Prop} {w : Snapshot}

/-! ### The condition -/

section

variable (c : SnapshotConfig)

section

variable (w : Snapshot)

/-- An `add` brings in no refused name, unless the tree is cut later, and no file that was never checked. -/
def NamesNoFolder : SnapshotEvent → Prop
  | .added unreadable => match w.stage with
    | .adding pending _ _ => ∀ p ∈ pending, w.worktree.isDir p → ∀ q ∈ w.worktree.below p, q ∉ unreadable →
        (w.sparseDirs = [] → isHidden c q = false) ∧ (w.Tracked q ∨ w.Passed c q)
    | _ => True
  | _ => True

/-- No untracked file that the call reads is larger than the cap. -/
def WithinCap : SnapshotEvent → Prop
  | .added unreadable => match w.stage with
    | .adding pending _ _ => ∀ q b, (∃ p ∈ pending, Brings w.worktree unreadable p q) → w.worktree.blob? q = some b →
        w.Tracked q ∨ b.bytes ≤ c.caps.maxFileBytes
    | _ => True
  | .updated ignored => match w.stage with
    | .updating u => ∀ q b, q ∈ u.list → q ∉ ignored → w.worktree.blob? q = some b →
        w.Tracked q ∨ b.bytes ≤ c.caps.maxFileBytes
    | _ => True
  | _ => True

/-! ### What the index and the trees hold -/

/-- The path is tracked, or the untracked file passed the cap. -/
def Known (p : Path) : Prop := w.Tracked p ∨ w.Passed c p

def Listed (p : Path) : Prop := isHidden c p = false ∧ w.Known c p

end

end

/-- A leaf that may be in the tree: known, and if sizes are held to the cap, tracked or within it. -/
def Held (S : Prop) (c : SnapshotConfig) (w : Snapshot) (p : Path) (b : Blob) : Prop :=
  w.Known c p ∧ (S → w.Tracked p ∨ b.bytes ≤ c.caps.maxFileBytes)

/-- The temp index once the hidden paths have left it. -/
structure Built (S : Prop) (c : SnapshotConfig) (w : Snapshot) : Prop where
  folders : w.index.folders = w.sparseDirs
  held : ∀ e ∈ w.index.entries, w.Held S c e.path e.blob
  clean : w.sparseDirs = [] → ∀ e ∈ w.index.entries, isHidden c e.path = false
  originals : ∀ e ∈ w.originals, w.Held S c e.path e.blob
  allowed : ∀ a ∈ w.allowed, w.Listed c a.1

structure Seeded (c : SnapshotConfig) (w : Snapshot) : Prop where
  index : w.index = ⟨w.originals, w.sparseDirs⟩
  allowed : ∀ a ∈ w.allowed, w.Listed c a.1

/-- A written tree: its leaves are held, and without sparse folders none of its paths is hidden. -/
structure Good (S : Prop) (c : SnapshotConfig) (w : Snapshot) (t : Tree) : Prop where
  held : ∀ b ∈ t.blobs, w.Held S c b.1 b.2
  clean : w.sparseDirs = [] → ∀ p ∈ t.paths, isHidden c p = false

structure Final (S : Prop) (c : SnapshotConfig) (w : Snapshot) (t : Tree) : Prop where
  held : ∀ b ∈ t.blobs, w.Held S c b.1 b.2
  clean : ∀ p ∈ t.paths, isHidden c p = false

def AddFor.Listed (c : SnapshotConfig) (w : Snapshot) : AddFor → Prop
  | .conflicted _ list _ => ∀ p ∈ list, w.Listed c p
  | .untracked => True

def Sound (S : Prop) (c : SnapshotConfig) (w : Snapshot) : Prop :=
  match w.stage with
  | .opening | .seeding => w.allowed = []
  | .outside | .candidates | .refreshing | .dirty => w.Seeded c
  | .others paths | .checking paths _ | .hiding paths => w.Seeded c ∧ ∀ p ∈ paths, w.Known c p
  | .puttingBack list _ => w.Built S c ∧ ∀ p ∈ list, w.Listed c p
  | .adding pending _ purpose => w.Built S c ∧ (∀ p ∈ pending, w.Listed c p) ∧ AddFor.Listed c w purpose
  | .updating u | .forcing _ u => w.Built S c ∧ ∀ p ∈ u.list, w.Listed c p
  | .resetting _ | .writing _ | .settling _ _ => w.Built S c
  | .cutting tree _ => w.Good S c tree
  | .rechecking tree _ | .committing tree _ | .reffing tree _ | .answered (.captured tree _) => w.Final S c tree
  | .answered _ => True

variable {p : Path} {b : Blob}

theorem Held.known (h : w.Held S c p b) : w.Known c p := h.1

theorem held_of_tracked (h : w.Tracked p) : w.Held S c p b := ⟨.inl h, fun _ => .inl h⟩

theorem tracked_of_mem {e : IndexEntry} (h : e ∈ w.originals) : w.Tracked e.path := .inl ⟨e, h, rfl⟩

variable {purpose : AddFor} {unreadable : List Path}

theorem listed_of_eq {index : Index} (h : AddFor.Listed c w purpose) :
    AddFor.Listed c { w with index, unreadable } purpose := by
  cases purpose <;> exact h

variable {w' : Snapshot}

section

variable (h : w.Built S c)
include h

theorem Built.of_eq (hindex : w'.index = w.index) (horiginals : w'.originals = w.originals)
    (hdirs : w'.sparseDirs = w.sparseDirs) (hlooked : w'.looked = w.looked) (hallowed : w'.allowed = w.allowed) :
    w'.Built S c := by
  have hknown : ∀ p, w.Known c p → w'.Known c p := by
    intro p
    unfold Known Tracked Passed
    rw [horiginals, hdirs, hlooked]
    exact id
  have hheld : ∀ p b, w.Held S c p b → w'.Held S c p b := by
    intro p b
    unfold Held Known Tracked Passed
    rw [horiginals, hdirs, hlooked]
    exact id
  constructor
  · rw [hindex, hdirs]
    exact h.folders
  · rw [hindex]
    exact fun e he => hheld _ _ (h.held e he)
  · rw [hindex, hdirs]
    exact h.clean
  · rw [horiginals]
    exact fun e he => hheld _ _ (h.originals e he)
  · rw [hallowed]
    exact fun a ha => ⟨(h.allowed a ha).1, hknown _ (h.allowed a ha).2⟩

theorem Built.unread (unreadable : List Path) : { w with unreadable }.Built S c :=
  h.of_eq rfl rfl rfl rfl rfl

theorem Built.of_index {x : Index} (hfolders : x.folders = w.index.folders)
    (hentries : ∀ e ∈ x.entries, e ∈ w.index.entries ∨
      (w.Held S c e.path e.blob ∧ (w.sparseDirs = [] → isHidden c e.path = false))) :
    { w with index := x }.Built S c := { h with
  folders := hfolders.trans h.folders
  held := fun e he => (hentries e he).elim (h.held e) And.left
  clean := fun hdirs e he => (hentries e he).elim (h.clean hdirs e) fun h => h.2 hdirs }

theorem Built.remove (ps : List Path) : { w with index := w.index.remove ps }.Built S c :=
  h.of_index rfl fun _ he => .inl (mem_remove.mp he).1

end

/-! ### `syncTracked` and `addLiteral` -/

theorem sound_leaveSync (h : w.Built S c) (next : AfterSync) : (w.leaveSync next).Sound S c := by
  cases next with
  | untracked =>
    unfold leaveSync
    split_ifs
    · exact h.of_eq rfl rfl rfl rfl rfl
    · refine ⟨h.of_eq rfl rfl rfl rfl rfl, fun p hp => ?_, trivial⟩
      obtain ⟨a, ha, rfl⟩ := List.mem_map.mp hp
      exact h.allowed a ha
  | round n tree => exact h.of_eq rfl rfl rfl rfl rfl

theorem sound_finishSync (h : w.Built S c) (u : Updating) : (w.finishSync u).Sound S c := by
  have hrewritten : ∀ rewritten, { w with rewritten }.Built S c := fun _ => h.of_eq rfl rfl rfl rfl rfl
  exact sound_leaveSync (hrewritten _) u.next

variable {u : Updating}

theorem sound_enterUpdate (h : w.Built S c) (hlist : ∀ p ∈ u.list, w.Listed c p) : (w.enterUpdate u).Sound S c := by
  unfold enterUpdate
  split_ifs
  · exact sound_finishSync h u
  · trivial
  · exact ⟨h.of_eq rfl rfl rfl rfl rfl, hlist⟩

variable {list : List Path} {next : AfterSync}

theorem sound_enterList (h : w.Built S c) {conflicted : List Path} (hlist : ∀ p ∈ list, w.Listed c p) :
    (w.enterList conflicted list next).Sound S c :=
  sound_enterUpdate h fun p hp => hlist p (List.mem_filter.mp hp).1

theorem sound_enterCopy (h : w.Built S c) (hlist : ∀ p ∈ list, w.Listed c p) :
    (w.enterCopy c list next).Sound S c := by
  have hcopied : (w.copyBlobs c list).Built S c := h.of_eq rfl rfl rfl rfl rfl
  unfold enterCopy
  dsimp only
  split_ifs
  · exact sound_enterList hcopied hlist
  · exact ⟨h.of_eq rfl rfl rfl rfl rfl, fun p hp => hlist p (List.mem_filter.mp hp).1, hlist⟩

variable {paths : List Path}

theorem sound_enterSync (h : w.Built S c) (hpaths : ∀ p ∈ paths, w.Known c p) :
    (w.enterSync c paths next).Sound S c := by
  have hlist : ∀ p ∈ paths.filter fun p => !isHidden c p && p ∉ w.unreadable, w.Listed c p := by
    intro p hp
    obtain ⟨hp, htest⟩ := List.mem_filter.mp hp
    exact ⟨by simpa using (Bool.and_eq_true_iff.mp htest).1, hpaths p hp⟩
  unfold enterSync
  dsimp only
  split_ifs
  · exact sound_leaveSync h next
  · exact ⟨h.of_eq rfl rfl rfl rfl rfl, hlist⟩
  · exact sound_enterCopy h hlist

theorem sound_leaveAdd (h : w.Built S c) (hpurpose : AddFor.Listed c w purpose) :
    (w.leaveAdd purpose).Sound S c := by
  cases purpose with
  | conflicted paths list next => exact sound_enterList h hpurpose
  | untracked => exact h.of_eq rfl rfl rfl rfl rfl

variable {pending : List Path} {attempt : Nat}

section

variable (h : w.Built S c)
include h

theorem sound_enterAdd (hpending : ∀ p ∈ pending, w.Listed c p) (hpurpose : AddFor.Listed c w purpose) :
    (w.enterAdd pending attempt purpose).Sound S c := by
  unfold enterAdd
  split_ifs
  · exact sound_leaveAdd h hpurpose
  · cases purpose with
    | conflicted paths list next => exact ⟨h.of_eq rfl rfl rfl rfl rfl, hpending, hpurpose⟩
    | untracked => exact ⟨h.of_eq rfl rfl rfl rfl rfl, hpending, trivial⟩
  · trivial

theorem sound_retryUpdate (hlist : ∀ p ∈ u.list, w.Listed c p) : (w.retryUpdate u).Sound S c :=
  sound_enterUpdate h fun p hp => hlist p (List.mem_filter.mp hp).1

theorem built_add (hstage : w.stage = .adding pending attempt purpose)
    (hpending : ∀ p ∈ pending, w.Listed c p) (hnames : w.NamesNoFolder c (.added unreadable))
    (hcap : S → w.WithinCap c (.added unreadable)) :
    { w with index := w.index.add w.worktree unreadable pending }.Built S c := by
  refine h.of_index (folders_add _ _) fun e he => ?_
  obtain he | ⟨⟨p, hp, hbrings⟩, hfresh⟩ := mem_add he
  · exact .inl he
  · refine .inr ?_
    unfold NamesNoFolder at hnames
    unfold WithinCap at hcap
    simp only [hstage] at hnames hcap
    have hsize : S → w.Tracked e.path ∨ e.blob.bytes ≤ c.caps.maxFileBytes :=
      fun hs => hcap hs _ _ ⟨p, hp, hbrings⟩ hfresh
    unfold Brings at hbrings
    split_ifs at hbrings with hdir
    · obtain ⟨hclean, hknown⟩ := hnames p hp hdir _ hbrings.1 hbrings.2
      exact ⟨⟨hknown, hsize⟩, hclean⟩
    · rw [hbrings] at hsize ⊢
      exact ⟨⟨(hpending p hp).2, hsize⟩, fun _ => (hpending p hp).1⟩

theorem built_update {ignored : List Path} (hstage : w.stage = .updating u)
    (hlist : ∀ p ∈ u.list, w.Listed c p) (hcap : S → w.WithinCap c (.updated ignored)) :
    { w with index := w.index.update w.worktree (u.list.filter (· ∉ ignored)) }.Built S c := by
  refine h.of_index (folders_update _) fun e he => ?_
  obtain he | ⟨hp, hfresh⟩ := mem_update he
  · exact .inl he
  · obtain ⟨hp, hread⟩ := List.mem_filter.mp hp
    refine .inr ⟨⟨(hlist _ hp).2, fun hs => ?_⟩, fun _ => (hlist _ hp).1⟩
    have hcap := hcap hs
    unfold WithinCap at hcap
    simp only [hstage] at hcap
    exact hcap _ _ hp (of_decide_eq_true hread) hfresh

theorem built_putBack (hlist : ∀ p ∈ list, w.Listed c p) :
    { w with index := w.index.putBack (w.backEntries list) }.Built S c := by
  refine h.of_index rfl fun e he => (mem_putBack he).imp_right fun he => ?_
  obtain ⟨he, htest⟩ := List.mem_filter.mp he
  have hp : e.path ∈ list := of_decide_eq_true (Bool.and_eq_true_iff.mp htest).1
  exact ⟨h.originals e he, fun _ => (hlist _ hp).1⟩

end

/-! ### Written trees -/

variable {t : Tree}

theorem good_writeTree (h : w.Built S c) (ht : w.index.writeTree = some t) : w.Good S c t where
  held b hb := by
    obtain ⟨e, he, rfl⟩ | hfolder := mem_blobs_writeTree ht hb
    · exact h.held e he
    · rw [h.folders] at hfolder
      exact held_of_tracked (.inr hfolder)
  clean hdirs p hp := by
    obtain ⟨e, he, hprefix⟩ := mem_paths_writeTree ht (h.folders.trans hdirs) hp
    by_contra hhidden
    have hup := hidden_of_isPrefix (TreeObject.ne_nil_of_mem_paths hp) (Bool.of_not_eq_false hhidden) hprefix
    exact Bool.false_ne_true ((h.clean hdirs e he).symm.trans hup)

theorem sound_enterCut (h : w.Good S c t) (unsettled : Bool) : (w.enterCut t unsettled).Sound S c := by
  unfold enterCut
  split_ifs with hdirs
  · exact ⟨h.held, h.clean (List.isEmpty_iff.mp hdirs)⟩
  · exact ⟨h.held, h.clean⟩

theorem sound_written (hbuilt : w.Built S c) (h : w.Good S c t) (round : Option (Nat × Tree)) :
    (w.written t round).Sound S c := by
  unfold written
  split
  · exact hbuilt.of_eq rfl rfl rfl rfl rfl
  · split_ifs
    · exact sound_enterCut h false
    · exact hbuilt.of_eq rfl rfl rfl rfl rfl
    · exact sound_enterCut h true

theorem exists_top (hp : p ∈ t.paths) (h : isHidden c p) : TreeObject.Cut (refusedTops c t) p := by
  induction p using List.reverseRecOn with
  | nil => exact absurd rfl (TreeObject.ne_nil_of_mem_paths hp)
  | append_singleton p name ih =>
    by_cases hparent : p ≠ [] ∧ isHidden c p
    · obtain ⟨d, hd, hne, hprefix⟩ :=
        ih (TreeObject.mem_paths_of_isPrefix hp hparent.1 (List.prefix_append _ _)) hparent.2
      exact ⟨d, hd, hne, hprefix.trans (List.prefix_append _ _)⟩
    · refine ⟨_, List.mem_filter.mpr ⟨hp, ?_⟩, List.concat_ne_nil _ _, List.prefix_refl _⟩
      rw [List.dropLast_concat, h, Bool.true_and, Bool.or_eq_true]
      by_cases hnil : p = []
      · exact .inl (by rw [hnil]; rfl)
      · exact .inr (by simpa using fun hhidden => hparent ⟨hnil, hhidden⟩)

theorem isHidden_of_cut (hp : p ∈ (t.prune (refusedTops c t)).paths) : isHidden c p = false := by
  obtain ⟨hp, hkept⟩ := TreeObject.mem_paths_prune.mp hp
  by_contra hhidden
  exact hkept (exists_top hp (Bool.of_not_eq_false hhidden))

theorem sound_cut (h : w.Good S c t) (unsettled : Bool) : (w.cut c t unsettled).Sound S c := by
  unfold cut
  dsimp only
  split_ifs with hdirs hnone
  · refine ⟨h.held, fun p hp => ?_⟩
    by_contra hhidden
    obtain ⟨d, hd, -⟩ := exists_top hp (Bool.of_not_eq_false hhidden)
    rw [List.isEmpty_iff.mp hnone] at hd
    cases hd
  · exact ⟨fun b hb => h.held b (TreeObject.mem_blobs_of_prune hb), fun p hp => isHidden_of_cut hp⟩
  · trivial

/-! ### The index as it was read -/

theorem built_of_seeded (h : w.Seeded c) : { w with index := w.index.remove (w.hiddenTracked c) }.Built S c where
  folders := by
    rw [h.index]
    rfl
  held e he := by
    have hmem := (mem_remove.mp he).1
    rw [h.index] at hmem
    exact held_of_tracked (tracked_of_mem (w := w) hmem)
  clean _ e he := by
    obtain ⟨hmem, hout⟩ := mem_remove.mp he
    rw [h.index] at hmem
    by_contra hhidden
    exact hout (List.mem_filter.mpr ⟨List.mem_map_of_mem hmem, Bool.of_not_eq_false hhidden⟩)
  originals e he := held_of_tracked (tracked_of_mem (w := w) he)
  allowed := h.allowed

theorem built_of_none_hidden (h : w.Seeded c) (hnone : w.hiddenTracked c = []) : w.Built S c := by
  refine (built_of_seeded h).of_eq ?_ rfl rfl rfl rfl
  rw [hnone]
  unfold Index.remove
  simp

theorem Seeded.known (h : w.Seeded c) (hp : w.index.has p) : w.Known c p := by
  obtain ⟨e, he, hpath⟩ := List.any_eq_true.mp hp
  rw [h.index] at he
  exact .inl (.inl ⟨e, he, of_decide_eq_true hpath⟩)

theorem Built.known (h : w.Built S c) (hp : w.index.has p) : w.Known c p := by
  obtain ⟨e, he, hpath⟩ := List.any_eq_true.mp hp
  rw [← of_decide_eq_true hpath]
  exact (h.held e he).known

theorem sound_check {rest : List Path} (h : w.Seeded c) (hpaths : ∀ q ∈ paths, w.Known c q) :
    (w.check c paths rest p).Sound S c := by
  have hgrow : ∀ (looked : List (Path × Nat)) (q : Path), w.Known c q →
      { w with looked := w.looked ++ looked }.Known c q := by
    rintro looked q (hq | ⟨size, hq, hle⟩)
    · exact .inl hq
    · exact .inr ⟨size, List.mem_append_left _ hq, hle⟩
  have hlist : ∀ (looked : List (Path × Nat)), ∀ a ∈ w.allowed,
      { w with looked := w.looked ++ looked }.Listed c a.1 :=
    fun looked a ha => ⟨(h.allowed a ha).1, hgrow looked _ (h.allowed a ha).2⟩
  unfold check
  dsimp only
  split_ifs with hhidden
  · exact ⟨⟨h.index, h.allowed⟩, hpaths⟩
  · split
    · rename_i executable size object hstat
      split_ifs with hsize hcaps
      · exact ⟨⟨h.index, hlist _⟩, fun q hq => hgrow _ _ (hpaths q hq)⟩
      · trivial
      · refine ⟨⟨h.index, fun a ha => ?_⟩, fun q hq => hgrow _ _ (hpaths q hq)⟩
        obtain ha | ha := List.mem_append.mp ha
        · exact hlist _ a ha
        · obtain rfl := List.mem_singleton.mp ha
          exact ⟨by simpa using hhidden,
            .inr ⟨size, List.mem_append_right _ List.mem_cons_self, Nat.le_of_not_lt hsize⟩⟩
    · exact ⟨⟨h.index, h.allowed⟩, hpaths⟩

/-! ### Every event -/

section

variable (h : w.Sound S c)
include h

theorem sound_ok (hstep : w.step c .ok = some w') : w'.Sound S c := by
  unfold Sound at h
  simp only [step] at hstep
  split at hstep
  case h_1 hstage =>
    cases hstep
    simp only [hstage] at h
    exact h
  case h_2 hstage =>
    simp only [hstage] at h
    split_ifs at hstep <;> cases hstep
    · trivial
    · exact ⟨h.index, h.allowed⟩
  case h_3 hstage =>
    cases hstep
    simp only [hstage] at h
    exact ⟨h.index, h.allowed⟩
  case h_4 paths hstage =>
    cases hstep
    simp only [hstage] at h
    exact ⟨⟨h.1.index, h.1.allowed⟩, h.2⟩
  case h_5 paths p rest hstage =>
    cases hstep
    simp only [hstage] at h
    exact sound_check h.1 h.2
  case h_6 paths hstage =>
    simp only [hstage] at h
    split_ifs at hstep with hnone <;> cases hstep
    · exact sound_enterSync (built_of_none_hidden h.1 (List.isEmpty_iff.mp hnone)) h.2
    · exact ⟨⟨h.1.index, h.1.allowed⟩, h.2⟩
  case h_7 paths hstage =>
    cases hstep
    simp only [hstage] at h
    exact sound_enterSync (built_of_seeded h.1) h.2
  case h_8 list next hstage =>
    cases hstep
    simp only [hstage] at h
    exact sound_enterCopy (built_putBack h.1 h.2) h.2
  case h_9 removed u hstage =>
    cases hstep
    simp only [hstage] at h
    exact sound_retryUpdate (h.1.remove removed) h.2
  case h_10 round hstage =>
    cases hstep
    simp only [hstage] at h
    exact (h.remove [TREE_RESET_PATH]).of_eq rfl rfl rfl rfl rfl
  case h_11 round hstage =>
    obtain ⟨t, ht, rfl⟩ := Option.map_eq_some_iff.mp hstep
    simp only [hstage] at h
    exact sound_written h (good_writeTree h ht) round
  case h_12 tree unsettled hstage =>
    cases hstep
    simp only [hstage] at h
    exact sound_cut h unsettled
  case h_13 tree unsettled hstage =>
    simp only [hstage] at h
    split_ifs at hstep <;> cases hstep
    · trivial
    · exact ⟨h.held, h.clean⟩
  case h_14 tree unsettled hstage =>
    cases hstep
    simp only [hstage] at h
    exact ⟨h.held, h.clean⟩
  case h_15 tree unsettled hstage =>
    cases hstep
    simp only [hstage] at h
    exact ⟨h.held, h.clean⟩
  all_goals cases hstep

theorem sound_differ (hstep : w.step c (.differ paths) = some w') : w'.Sound S c := by
  unfold Sound at h
  simp only [step] at hstep
  by_cases hall : paths.all w.index.has
  · rw [if_pos hall] at hstep
    have hknown : ∀ p ∈ paths, w.index.has p := List.all_eq_true.mp hall
    split at hstep
    case h_1 hstage =>
      simp only [hstage] at h
      split_ifs at hstep <;> obtain rfl := Option.some.inj hstep <;> exact ⟨h.index, h.allowed⟩
    case h_2 hstage =>
      simp only [hstage] at h
      split_ifs at hstep <;> cases hstep
      · trivial
      · exact ⟨⟨h.index, h.allowed⟩, fun p hp => h.known (hknown p hp)⟩
    case h_3 n tree hstage =>
      simp only [hstage] at h
      split_ifs at hstep <;> cases hstep
      · trivial
      · exact sound_enterSync h fun p hp => h.known (hknown p hp)
    case h_4 => cases hstep
  · rw [if_neg hall] at hstep
    cases hstep

theorem sound_touch (worktree : Worktree) : { w with worktree }.Sound S c := by
  have hbuilt : w.Built S c → { w with worktree }.Built S c := fun hb => hb.of_eq rfl rfl rfl rfl rfl
  have hseeded : w.Seeded c → { w with worktree }.Seeded c := fun hs => ⟨hs.index, hs.allowed⟩
  unfold Sound at h ⊢
  dsimp only
  split at h
  all_goals first
    | exact h
    | exact hseeded h
    | exact hbuilt h
    | exact ⟨hseeded h.1, h.2⟩
    | exact ⟨hbuilt h.1, h.2⟩
    | exact ⟨h.held, h.clean⟩

theorem sound_readIndex (hstage : w.stage = .seeding) (index : Index) : (w.readIndex index).Sound S c := by
  unfold Sound at h
  simp only [hstage] at h
  refine ⟨rfl, fun a ha => ?_⟩
  change a ∈ w.allowed at ha
  rw [h] at ha
  cases ha

end

variable {a : SnapshotEvent}

/-- The calls that change the index, and the rest of the events, keep what holds at each stage. -/
theorem sound_step (h : w.Sound S c) (hnames : w.NamesNoFolder c a) (hcap : S → w.WithinCap c a)
    (hstep : w.step c a = some w') : w'.Sound S c := by
  cases a with
  | touch worktree =>
    cases hstep
    exact sound_touch h worktree
  | stop reason =>
    simp only [step] at hstep
    split at hstep
    · cases hstep
    · cases hstep
      trivial
  | ok => exact sound_ok h hstep
  | found =>
    simp only [step] at hstep
    split at hstep
    · cases hstep
      trivial
    · cases hstep
      trivial
    · cases hstep
  | seed index =>
    simp only [step] at hstep
    split at hstep
    · rename_i hstage
      cases hstep
      exact sound_readIndex h hstage index
    · cases hstep
  | seedHead index =>
    simp only [step] at hstep
    split at hstep
    · rename_i hstage
      split_ifs at hstep <;> cases hstep
      · trivial
      · exact sound_readIndex h hstage index
    · cases hstep
  | differ paths => exact sound_differ h hstep
  | vanished p =>
    simp only [step] at hstep
    split at hstep
    · rename_i pending attempt purpose hstage
      split_ifs at hstep
      cases hstep
      unfold Sound at h
      simp only [hstage] at h
      exact sound_enterAdd h.1 (fun q hq => h.2.1 q (List.mem_filter.mp hq).1) h.2.2
    · cases hstep
  | added unreadable =>
    simp only [step] at hstep
    split at hstep
    · rename_i pending attempt purpose hstage
      split_ifs at hstep
      cases hstep
      unfold Sound at h
      simp only [hstage] at h
      exact sound_leaveAdd ((built_add h.1 hstage h.2.1 hnames hcap).unread _) (listed_of_eq h.2.2)
    · cases hstep
  | updated ignored =>
    simp only [step] at hstep
    split at hstep
    · rename_i u hstage
      cases hstep
      unfold Sound at h
      simp only [hstage] at h
      exact sound_finishSync ((built_update h.1 hstage h.2 hcap).unread _) u
    · cases hstep
  | refused paths removed =>
    simp only [step] at hstep
    split at hstep
    · rename_i u hstage
      unfold Sound at h
      simp only [hstage] at h
      split_ifs at hstep <;> cases hstep
      · exact sound_retryUpdate (h.1.unread _) h.2
      · exact ⟨h.1.of_eq rfl rfl rfl rfl rfl, h.2⟩
    · cases hstep

/-! ### Over every run -/

theorem sound_of_run {worktree : Worktree} (h : Runs.Run (step c) (fun w a => w.NamesNoFolder c a ∧ (S →
      w.WithinCap c a)) (start worktree) w) : w.Sound S c :=
  h.invariant (P := Sound S c) (fun _ _ _ hw hC hstep => sound_step hw hC.1 hC.2 hstep) rfl

theorem final_of_captured {unsettled : Bool} (h : w.Sound S c)
    (hstage : w.stage = .answered (.captured t unsettled)) :
    w.Final S c t := by
  unfold Sound at h
  simpa only [hstage] using h

/-- If no `add` names a folder with a refused or an unchecked file below it, a captured tree has no hidden path and
its untracked files passed the cap; if besides no untracked file outgrows the cap before git reads it, they are
within the cap as they were captured. -/
theorem captures_admitted (c : SnapshotConfig) (worktree : Worktree) :
    (∀ w t unsettled, Runs.Run (step c) (NamesNoFolder c) (start worktree) w →
      w.stage = .answered (.captured t unsettled) →
      (∀ p ∈ t.paths, isHidden c p = false) ∧ ∀ b ∈ t.blobs, ¬ w.Tracked b.1 → w.Passed c b.1) ∧
    ∀ w t unsettled, Runs.Run (step c) (fun w a => w.NamesNoFolder c a ∧ w.WithinCap c a) (start worktree) w →
      w.stage = .answered (.captured t unsettled) →
      ∀ b ∈ t.blobs, ¬ w.Tracked b.1 → b.2.bytes ≤ c.caps.maxFileBytes := by
  constructor
  · intro w t unsettled hrun hstage
    have hrun : Runs.Run (step c) (fun w a => w.NamesNoFolder c a ∧ (False → w.WithinCap c a)) (start worktree) w :=
      hrun.imp fun _ _ hnames => ⟨hnames, False.elim⟩
    have hfinal := final_of_captured (sound_of_run hrun) hstage
    exact ⟨hfinal.clean, fun b hb huntracked => (hfinal.held b hb).known.resolve_left huntracked⟩
  · intro w t unsettled hrun hstage b hb huntracked
    have hrun : Runs.Run (step c) (fun w a => w.NamesNoFolder c a ∧ (True → w.WithinCap c a)) (start worktree) w :=
      hrun.imp fun _ _ hC => ⟨hC.1, fun _ => hC.2⟩
    have hfinal := final_of_captured (sound_of_run hrun) hstage
    exact ((hfinal.held b hb).2 trivial).resolve_left huntracked

/-! ### Folders where the index has a file -/

def captured? (w : Snapshot) : Option Tree :=
  match w.stage with
  | .answered (.captured tree _) => some tree
  | _ => none

theorem stage_of_captured (h : w.captured? = some t) :
    ∃ unsettled, w.stage = .answered (.captured t unsettled) := by
  unfold captured? at h
  split at h
  · rename_i tree unsettled hstage
    cases h
    exact ⟨unsettled, hstage⟩
  · cases h

/-- A worktree with the folder `a` and one file in it. -/
def folderWith (name : String) : Worktree where
  tree :=
    { nodes := ⟨[⟨["a".toList], .dir⟩, ⟨["a".toList, name.toList], .file (.file false 3 ⟨2, 3⟩)⟩], by simp⟩
      below := by simp
      parent := by simp [Keyed.Table.find?] }
  ignored _ := false

def conflictedIndex : Index := { entries := [⟨["a".toList], .file false ⟨1, 5⟩, 2, false⟩] }

/-- A snapshot in which `git add` of `a` is the only call that changes the index. -/
def conflictedEvents : List SnapshotEvent :=
  [.ok, .seed conflictedIndex, .ok, .differ [["a".toList]], .ok, .differ [["a".toList]], .ok, .ok, .ok,
    .added [], .ok,
    .ok, .differ [], .ok, .ok, .ok, .ok]

/-- Not every captured tree is without refused names: a conflicted path that is a folder brings in the file below
it, though the untracked pass left it out. -/
theorem captures_hidden : ¬ ∀ (c : SnapshotConfig) (worktree : Worktree) (w : Snapshot) (t : Tree) (unsettled : Bool),
    Runs.Run (step c) (fun _ _ => True) (start worktree) w → w.stage = .answered (.captured t unsettled) →
      (∀ p ∈ t.paths, isHidden c p = false) ∧ ∀ b ∈ t.blobs, ¬ w.Tracked b.1 → w.Passed c b.1 := by
  intro hclaim
  obtain ⟨w, hrun, hw⟩ := exists_run_of_exec
    (show (exec (step {}) (fun _ _ => True) (start (folderWith ".env")) conflictedEvents).any
      (fun w => w.captured?.any fun t => t.paths.any (isHidden {})) = true by decide +kernel)
  obtain ⟨t, ht, hhidden⟩ := (Option.any_eq_true _ _).mp hw
  obtain ⟨unsettled, hstage⟩ := stage_of_captured ht
  obtain ⟨p, hp, hhidden⟩ := List.any_eq_true.mp hhidden
  rw [(hclaim {} _ w t unsettled hrun hstage).1 p hp] at hhidden
  cases hhidden

def namesFiles (w : Snapshot) : SnapshotEvent → Bool
  | .added _ => match w.stage with
    | .adding pending _ _ => pending.all fun p => !w.worktree.isDir p
    | _ => true
  | _ => true

theorem namesNoFolder_of_namesFiles (h : w.namesFiles a) : w.NamesNoFolder c a := by
  cases a
  case added unreadable =>
    unfold namesFiles at h
    unfold NamesNoFolder
    cases hstage : w.stage
    case adding pending attempt purpose =>
      simp only [hstage] at h ⊢
      intro p hp hdir
      have hfile := List.all_eq_true.mp h p hp
      rw [hdir] at hfile
      cases hfile
    all_goals trivial
  all_goals trivial

def untrackedEvents : List SnapshotEvent :=
  [.ok, .seed {}, .ok, .differ [], .ok, .differ [], .ok, .ok, .ok, .added [], .ok, .ok, .differ [], .ok, .ok, .ok,
      .ok]

/-- A run that captures an untracked file, which passed the cap. -/
theorem captures_admitted_untracked : ∃ (w : Snapshot) (t : Tree), w.captured? = some t ∧
    t.paths = [["a".toList], ["a".toList, "b".toList]] ∧ (∀ p ∈ t.paths, isHidden {} p = false) ∧
    ∀ b ∈ t.blobs, ¬ w.Tracked b.1 → w.Passed {} b.1 := by
  obtain ⟨w, hrun, hw⟩ := exists_run_of_exec
    (show (exec (step {}) (fun w a => w.namesFiles a = true) (start (folderWith "b")) untrackedEvents).any
      (fun w => w.captured?.any fun t => t.paths = [["a".toList], ["a".toList, "b".toList]]) = true by decide +kernel)
  obtain ⟨t, ht, hpaths⟩ := (Option.any_eq_true _ _).mp hw
  obtain ⟨unsettled, hstage⟩ := stage_of_captured ht
  exact ⟨w, t, ht, of_decide_eq_true hpaths, (captures_admitted {} (folderWith "b")).1 w t unsettled
    (hrun.imp fun _ _ h => namesNoFolder_of_namesFiles h) hstage⟩

end Sightr.Checkpoints.Snapshot
