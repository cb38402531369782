import Sightr.Herd.World

/-!
# What a herd diff makes of each project

The project of a workspace is brought in line with it before the threads' events, and the project of a
workspace that is gone gets its status, and its close at the second look, after them. The store takes both
lists of events.
-/

namespace Sightr

open Keyed (Table)

/-- The project of a live workspace: as it is where it agrees, else as it should be. -/
def liveProject (existing : Option Project) (w : DesiredWorkspace) (threads : List ServerThread) : Project :=
  let desired := desiredProject existing w (rollUp threads w.id)
  (existing.filter (sameProject · desired)).getD desired

def goneProject (ctx : HerdDiffContext) (threads : List ServerThread) (existing : Project) : Project :=
  { existing with
    status := rollUp threads existing.id
    closedAt :=
      if existing.closedAt = none ∧ (ctx.first ∨ existing.id ∈ ctx.missingProjects) then some ctx.now
      else existing.closedAt }

/-- What the events of a workspace's project leave of the tables. -/
structure OnlyProjects (p p' : Projection) : Prop where
  threads : p'.threads = p.threads
  runs : p'.runs = p.runs
  runtimeRequests : p'.runtimeRequests = p.runtimeRequests

theorem OnlyProjects.refl (p : Projection) : OnlyProjects p p := ⟨rfl, rfl, rfl⟩

theorem OnlyProjects.trans {p q r : Projection} (h : OnlyProjects p q) (h' : OnlyProjects q r) : OnlyProjects p r :=
  ⟨h'.threads.trans h.threads, h'.runs.trans h.runs, h'.runtimeRequests.trans h.runtimeRequests⟩

/-! ### Single events -/

section

variable {ts : Int} {db : Db}

theorem writeDraft_upserted {project : Project}
    (hswitch : project.checkpoints = (db.projection.projects.find? project.id).bind (·.checkpoints)) :
    ∃ m event, Db.writeDraft {} ts db { payload := .projectUpserted project } = .ok (m, event) ∧
      m.projection = { db.projection with projects := db.projection.projects.set project } := by
  have hpayload : (db.stamp {} ts { payload := .projectUpserted project }).payload =
      .projectUpserted project := Db.payload_stamp_of_type_ne (by simp [Payload.type])
  have hrow : db.projection.upsertProject project =
      { db.projection with projects := db.projection.projects.set project } := by
    unfold Projection.upsertProject
    rw [← hswitch, Option.orElse_eq_orElse, Option.orElse_eq_or, Option.or_self]
  have happly : db.projection.applyEvent (db.stamp {} ts { payload := .projectUpserted project }) =
      .ok { db.projection with projects := db.projection.projects.set project } := by
    simp only [Projection.applyEvent, hpayload, hrow]
  obtain ⟨m, hwrite, hm⟩ := Db.writeDraft_of_applyEvent (by simp [Payload.type]) happly
  exact ⟨m, _, hwrite, hm⟩

theorem writeDraft_closed {project : Project} {closedAt : Int}
    (hfind : db.projection.projects.find? project.id = some project) :
    ∃ m event, Db.writeDraft {} ts db { payload := .projectClosed project.id closedAt } = .ok (m, event) ∧
      m.projection = { db.projection with
        projects := db.projection.projects.set { project with closedAt := some closedAt } } := by
  have hpayload : (db.stamp {} ts { payload := .projectClosed project.id closedAt }).payload =
      .projectClosed project.id closedAt := Db.payload_stamp_of_type_ne (by simp [Payload.type])
  have happly : db.projection.applyEvent
      (db.stamp {} ts { payload := .projectClosed project.id closedAt }) = .ok { db.projection with
        projects := db.projection.projects.set { project with closedAt := some closedAt } } := by
    simp only [Projection.applyEvent, hpayload]
    exact Projection.closeProject_eq_ok.mpr ⟨project, hfind, rfl⟩
  obtain ⟨m, hwrite, hm⟩ := Db.writeDraft_of_applyEvent (by simp [Payload.type]) happly
  exact ⟨m, _, hwrite, hm⟩

end

/-! ### The projects of live workspaces -/

section

variable {projection : HerdProjection} {ts : Int} {threads : List ServerThread}

theorem traceM_projectEvents {db : Db} {workspaces : List DesiredWorkspace} (hnodup : (workspaces.map (·.id)).Nodup)
    (hprojects : ∀ w ∈ workspaces, projection.projects.find? (·.id = w.id) = db.projection.projects.find? w.id) :
    ∃ m written, Fold.traceM (Db.writeDraft {} ts) db (projectEvents projection workspaces threads) =
        .ok (m, written) ∧ OnlyProjects db.projection m.projection ∧
      (∀ w ∈ workspaces, m.projection.projects.find? w.id =
        some (liveProject (db.projection.projects.find? w.id) w threads)) ∧
      ∀ id, id ∉ workspaces.map (·.id) → m.projection.projects.find? id = db.projection.projects.find? id := by
  induction workspaces generalizing db with
  | nil => exact ⟨db, [], rfl, .refl _, fun w hw => absurd hw List.not_mem_nil, fun _ _ => rfl⟩
  | cons w workspaces ih =>
    rw [List.map_cons, List.nodup_cons] at hnodup
    have hexisting := hprojects w (by simp)
    set existing := db.projection.projects.find? w.id with hfind
    set desired := desiredProject existing w (rollUp threads w.id) with hdesired
    obtain ⟨m, written, hwrite, honly, hself, helse⟩ : ∃ m written,
        Fold.traceM (Db.writeDraft {} ts) db (projectEvents projection [w] threads) = .ok (m, written) ∧
        OnlyProjects db.projection m.projection ∧
        m.projection.projects.find? w.id = some (liveProject existing w threads) ∧
        ∀ id, id ≠ w.id → m.projection.projects.find? id = db.projection.projects.find? id := by
      unfold projectEvents
      simp only [List.filterMap_cons, List.filterMap_nil, hexisting, ← hdesired]
      by_cases hsame : existing.any (sameProject · desired) = true
      · simp only [if_pos hsame]
        refine ⟨db, [], rfl, .refl _, ?_, fun _ _ => rfl⟩
        obtain ⟨project, hproject, hagrees⟩ := (Option.any_eq_true _ _).mp hsame
        simp only [liveProject, ← hdesired]
        have hfilter : existing.filter (sameProject · desired) = some project := by
          rw [hproject]
          exact Option.filter_some_pos hagrees
        rw [hfilter, ← hfind, hproject, Option.getD_some]
      · simp only [if_neg hsame]
        obtain ⟨m, event, hwrite, hm⟩ := @writeDraft_upserted ts db desired rfl
        have hlive : liveProject existing w threads = desired := by
          simp only [liveProject, ← hdesired]
          cases hcase : existing with
          | none => rfl
          | some project =>
            rw [hcase] at hsame
            rw [Option.filter_some_neg (by simpa using hsame), Option.getD_none]
        refine ⟨m, [event], Fold.traceM_cons_eq_ok.mpr ⟨m, event, [], hwrite, rfl, rfl⟩, ?_, ?_, ?_⟩
        · rw [hm]
          exact ⟨rfl, rfl, rfl⟩
        · rw [hm, hlive]
          exact Table.find?_set_self _ desired
        · intro id hid
          rw [hm]
          exact Table.find?_set_of_ne _ (Ne.symm hid)
    have hrest : ∀ u ∈ workspaces, u.id ≠ w.id := fun u hu heq => hnodup.1 (heq ▸ List.mem_map.mpr ⟨u, hu, rfl⟩)
    obtain ⟨m', written', hwrite', honly', hself', helse'⟩ := @ih m hnodup.2 fun u hu => by
      rw [hprojects u (by simp [hu]), helse _ (hrest u hu)]
    refine ⟨m', written ++ written', ?_, honly.trans honly', fun u hu => ?_, fun id hid => ?_⟩
    · have hsplit : projectEvents projection (w :: workspaces) threads =
          projectEvents projection [w] threads ++ projectEvents projection workspaces threads := by
        rw [projectEvents, projectEvents, projectEvents, ← List.filterMap_append]
        rfl
      rw [hsplit]
      exact Fold.traceM_append_eq_ok.mpr ⟨m, written, written', hwrite, hwrite', rfl⟩
    · rcases List.mem_cons.mp hu with rfl | hu
      · rw [helse' _ hnodup.1, hself]
      · rw [hself' u hu, helse _ (hrest u hu)]
    · rw [List.map_cons, List.mem_cons, not_or] at hid
      rw [helse' id hid.2, helse id hid.1]

end

/-! ### The projects that are gone -/

section

variable {projection : HerdProjection} {ctx : HerdDiffContext} {ts : Int} {threads : List ServerThread}

private def goneEvents (ctx : HerdDiffContext) (threads : List ServerThread) (existing : Project) :
    List EventDraft :=
  (if rollUp threads existing.id ≠ existing.status then
    [{ payload := .projectUpserted { existing with status := rollUp threads existing.id } }] else []) ++
  (if existing.closedAt = none ∧ (ctx.first ∨ existing.id ∈ ctx.missingProjects) then
    [{ payload := .projectClosed existing.id ctx.now }] else [])

theorem traceM_goneEvents {db : Db} {existing : Project}
    (hfind : db.projection.projects.find? existing.id = some existing) :
    ∃ m written, Fold.traceM (Db.writeDraft {} ts) db (goneEvents ctx threads existing) = .ok (m, written) ∧
      OnlyProjects db.projection m.projection ∧
      m.projection.projects.find? existing.id = some (goneProject ctx threads existing) ∧
      ∀ id, id ≠ existing.id → m.projection.projects.find? id = db.projection.projects.find? id := by
  set moved : Project := { existing with status := rollUp threads existing.id } with hmoved
  obtain ⟨m, written, hwrite, honly, hself, helse⟩ : ∃ m written, Fold.traceM (Db.writeDraft {} ts) db
        (if rollUp threads existing.id ≠ existing.status then [{ payload := .projectUpserted moved }] else []) =
          .ok (m, written) ∧ OnlyProjects db.projection m.projection ∧
      m.projection.projects.find? existing.id = some moved ∧
      ∀ id, id ≠ existing.id → m.projection.projects.find? id = db.projection.projects.find? id := by
    by_cases hstatus : rollUp threads existing.id ≠ existing.status
    · rw [if_pos hstatus]
      obtain ⟨m, event, hwrite, hm⟩ := @writeDraft_upserted ts db moved (by
        show existing.checkpoints = (db.projection.projects.find? existing.id).bind (·.checkpoints)
        rw [hfind]
        rfl)
      refine ⟨m, [event], Fold.traceM_cons_eq_ok.mpr ⟨m, event, [], hwrite, rfl, rfl⟩, ?_, ?_, fun id hid => ?_⟩
      · rw [hm]
        exact ⟨rfl, rfl, rfl⟩
      · rw [hm]
        exact Table.find?_set_self _ moved
      · rw [hm]
        exact Table.find?_set_of_ne _ (Ne.symm hid)
    · rw [if_neg hstatus]
      have hkept : moved = existing := by rw [hmoved, not_ne_iff.mp hstatus]
      exact ⟨db, [], rfl, .refl _, by rw [hfind, hkept], fun _ _ => rfl⟩
  unfold goneEvents
  by_cases hclose : existing.closedAt = none ∧ (ctx.first = true ∨ existing.id ∈ ctx.missingProjects)
  · rw [if_pos hclose]
    obtain ⟨m', event, hwrite', hm'⟩ := @writeDraft_closed ts m moved ctx.now hself
    refine ⟨m', written ++ [event], Fold.traceM_append_eq_ok.mpr ⟨m, written, [event], hwrite,
      Fold.traceM_cons_eq_ok.mpr ⟨m', event, [], hwrite', rfl, rfl⟩, rfl⟩, ?_, ?_, fun id hid => ?_⟩
    · rw [hm']
      exact honly.trans ⟨rfl, rfl, rfl⟩
    · rw [hm']
      have hgone : goneProject ctx threads existing = { moved with closedAt := some ctx.now } := by
        simp only [goneProject, if_pos hclose, hmoved]
      have hset := Table.find?_set_self m.projection.projects { moved with closedAt := some ctx.now }
      rw [hgone]
      exact hset
    · rw [hm']
      have hset := Table.find?_set_of_ne m.projection.projects
        (r := { moved with closedAt := some ctx.now }) (Ne.symm hid)
      exact hset.trans (helse id hid)
  · rw [if_neg hclose, List.append_nil]
    have hgone : goneProject ctx threads existing = moved := by
      simp only [goneProject, if_neg hclose, hmoved]
    exact ⟨m, written, hwrite, honly, by rw [hself, hgone], helse⟩

theorem traceM_closeEvents {db : Db} {workspaces : List DesiredWorkspace}
    (hnodup : (projection.projects.map (·.id)).Nodup)
    (hfind : ∀ existing ∈ projection.projects, existing.id ∉ workspaces.map (·.id) →
      db.projection.projects.find? existing.id = some existing) :
    ∃ m written, Fold.traceM (Db.writeDraft {} ts) db (closeEvents projection ctx workspaces threads) =
        .ok (m, written) ∧ OnlyProjects db.projection m.projection ∧
      (∀ existing ∈ projection.projects, existing.id ∉ workspaces.map (·.id) →
        m.projection.projects.find? existing.id = some (goneProject ctx threads existing)) ∧
      ∀ id, (id ∈ workspaces.map (·.id) ∨ id ∉ projection.projects.map (·.id)) →
        m.projection.projects.find? id = db.projection.projects.find? id := by
  have hlist : ∀ (gone : List Project) (db : Db), (gone.map (·.id)).Nodup →
      (∀ existing ∈ gone, db.projection.projects.find? existing.id = some existing) →
      ∃ m written, Fold.traceM (Db.writeDraft {} ts) db (gone.flatMap (goneEvents ctx threads)) =
          .ok (m, written) ∧ OnlyProjects db.projection m.projection ∧
        (∀ existing ∈ gone, m.projection.projects.find? existing.id = some (goneProject ctx threads existing)) ∧
        ∀ id, id ∉ gone.map (·.id) → m.projection.projects.find? id = db.projection.projects.find? id := by
    intro gone
    induction gone with
    | nil => exact fun db _ _ => ⟨db, [], rfl, .refl _, fun _ h => absurd h List.not_mem_nil, fun _ _ => rfl⟩
    | cons existing gone ih =>
      intro db hnodup hfind
      rw [List.map_cons, List.nodup_cons] at hnodup
      have hrest : ∀ u ∈ gone, u.id ≠ existing.id := fun u hu heq =>
        hnodup.1 (heq ▸ List.mem_map.mpr ⟨u, hu, rfl⟩)
      obtain ⟨m, written, hwrite, honly, hself, helse⟩ :=
        @traceM_goneEvents ctx ts threads db existing (hfind existing (by simp))
      obtain ⟨m', written', hwrite', honly', hself', helse'⟩ := ih m hnodup.2 fun u hu => by
        rw [helse _ (hrest u hu)]
        exact hfind u (by simp [hu])
      refine ⟨m', written ++ written', ?_, honly.trans honly', fun u hu => ?_, fun id hid => ?_⟩
      · rw [List.flatMap_cons]
        exact Fold.traceM_append_eq_ok.mpr ⟨m, written, written', hwrite, hwrite', rfl⟩
      · rcases List.mem_cons.mp hu with rfl | hu
        · rw [helse' _ hnodup.1, hself]
        · exact hself' u hu
      · rw [List.map_cons, List.mem_cons, not_or] at hid
        rw [helse' id hid.2, helse id hid.1]
  obtain ⟨m, written, hwrite, honly, hself, helse⟩ :=
    hlist (projection.projects.filter fun p => p.id ∉ workspaces.map (·.id)) db
      (hnodup.sublist (List.filter_sublist.map _)) fun existing hexisting => by
        obtain ⟨hmem, hnot⟩ := List.mem_filter.mp hexisting
        exact hfind existing hmem (by simpa using hnot)
  refine ⟨m, written, hwrite, honly, fun existing hmem hnot => hself existing ?_, fun id hid => helse id ?_⟩
  · exact List.mem_filter.mpr ⟨hmem, by simpa using hnot⟩
  · intro hgone
    obtain ⟨existing, hexisting, rfl⟩ := List.mem_map.mp hgone
    obtain ⟨hmem, hnot⟩ := List.mem_filter.mp hexisting
    rcases hid with hid | hid
    · simp [hid] at hnot
    · exact hid (List.mem_map.mpr ⟨existing, hmem, rfl⟩)

end

end Sightr
