import GreenCommunity.Board.Evolution
import GreenCommunity.Board.Sample

/-!
# Reports are decided once

A decision reads that the report is pending, reads the pending reports of its target,
and updates each by its number, whatever has become of it by then.  As long as these
reports are still pending when the decision is committed, nobody decides a report again
and the reports that are decided together lead to one sanction at most.
-/

namespace GreenCommunity.Board

open GreenCommunity.Base

/-- The tables `t` have become `t'`: decided reports are as they were, and there is one
new sanction at most, for a report that has just been decided. -/
structure DecidesOnce (t t' : Tables) : Prop where
  kept : ∀ reportId row, t.reportAt reportId = some row → row.reportStatus ≠ .pending →
    t'.reportAt reportId = some row
  sanction : ∃ new, t'.userSanctions = t.userSanctions ++ new ∧ new.length ≤ 1 ∧
    ∀ sanction ∈ new, ∃ row row', t.reportAt sanction.reportId = some row ∧
      row.reportStatus = .pending ∧ t'.reportAt sanction.reportId = some row' ∧
        row'.reportStatus ≠ .pending

/-- The reports that the transaction of `c` decides are pending by now. -/
def StillPending {C : Type} (c : C) (s : State C) : Prop :=
  ∀ reportId set row, .update (.report reportId set) ∈ (s.db.session c).writes →
    s.db.committed.reportAt reportId = some row → row.reportStatus = .pending

/-! ## Sanctions -/

def Write.sanction : Write → Option UserSanction
  | .insert (.userSanction row) => some row
  | _ => none

theorem sanction_eq_some {w : Write} {row : UserSanction} :
    w.sanction = some row ↔ w = .insert (.userSanction row) := by
  cases w with
  | insert new => cases new <;> simp [Write.sanction]
  | update => simp [Write.sanction]

theorem userSanctions_apply (t : Tables) (w : Write) :
    (apply t w).userSanctions = t.userSanctions ++ w.sanction.toList := by
  cases w with
  | insert new =>
      cases new with
      | userSanction => rfl
      | _ => exact (List.append_nil _).symm
  | update change => cases change <;> exact (List.append_nil _).symm

section Commit

variable {coll : Infrastructure.Collation} {committed : Tables} {x : Summary}
  {session : Session Tables Write}

/-- No sanction before another. -/
theorem Explains.one_sanction (h : Explains coll committed x session) :
    (session.writes.filterMap Write.sanction).length ≤ 1 := by
  match hnew : session.writes.filterMap Write.sanction with
  | [] => exact Nat.zero_le _
  | [_] => exact Nat.le_refl _
  | first :: second :: rest =>
      obtain ⟨us, w, us', hsplit, _, hw, hrest⟩ := List.filterMap_eq_cons_iff.mp hnew
      obtain ⟨vs, w', vs', rfl, _, hw', _⟩ := List.filterMap_eq_cons_iff.mp hrest
      rw [sanction_eq_some] at hw hw'
      subst hw hw'
      have hlast : session.writes = (us ++ .insert (.userSanction first) :: vs) ++
          .insert (.userSanction second) :: vs' := by
        rw [hsplit]
        simp
      obtain ⟨ws, e, hforall, _, _, hwrote, hj⟩ := h.split hlast
      obtain ⟨e', he', hwrote'⟩ := exists_left hforall (b := .insert (.userSanction first))
        (by simp)
      obtain ⟨new, n, createdAt, rfl, hrow⟩ := event_of_insert hwrote
      obtain ⟨_, _, _, _, _, rfl, _⟩ := row_eq_userSanction hrow
      obtain ⟨new', n', createdAt', rfl, hrow'⟩ := event_of_insert hwrote'
      obtain ⟨_, _, _, _, _, rfl, _⟩ := row_eq_userSanction hrow'
      exact nomatch hj.1 _ he'

/-- A report that the transaction decides is decided in the end. -/
theorem decided_after (h : Explains coll committed x session) {reportId : Int}
    {set : ReportSet} {row : Report}
    (hw : .update (.report reportId set) ∈ session.writes)
    (hrow : committed.reportAt reportId = some row) :
    ∃ row', (session.writes.foldl apply committed).reportAt reportId = some row' ∧
      row'.reportStatus ≠ .pending := by
  refine ⟨_, reportAt_foldl hrow, ?_⟩
  obtain ⟨us, us', hsplit⟩ := List.append_of_mem hw
  have hid : (us.foldl (fun row w => w.onReport row) row).reportId = reportId :=
    foldl_keeps (f := Write.onReport) (P := fun row => row.reportId = reportId)
      (fun w _ row hid => (onReport_reportId w row).trans hid) (rowAt_eq_some hrow).2
  have hkeeps : ∀ w ∈ session.writes, ∀ row : Report, row.reportStatus ≠ .pending →
      (w.onReport row).reportStatus ≠ .pending := by
    intro w hw row hstatus
    cases w with
    | insert => exact hstatus
    | update change =>
        cases change with
        | report id set' =>
            simp only [Write.onReport]
            split
            · obtain ⟨_, _, hj⟩ := h.updated hw
              exact hj.1
            · exact hstatus
        | _ => exact hstatus
  obtain ⟨_, _, hj⟩ := h.updated hw
  rw [hsplit] at hkeeps ⊢
  rw [List.foldl_append, List.foldl_cons]
  refine foldl_keeps (f := Write.onReport) (P := fun row => row.reportStatus ≠ .pending)
    (fun w hw => hkeeps w (by simp [hw])) ?_
  rw [Write.onReport, if_pos hid]
  exact hj.1

/-- What a commit does to decided reports. -/
theorem decidesOnce {C : Type} {c : C} {s : State C}
    (h : Explains coll s.db.committed x (s.db.session c)) (hstill : StillPending c s) :
    DecidesOnce s.db.committed (s.db.current apply c) := by
  refine ⟨fun reportId row hrow hdecided => ?_, _, foldl_inserts userSanctions_apply, h.one_sanction,
    fun sanction hnew => ?_⟩
  · -- no update names a decided report
    have hkept : (s.db.session c).writes.foldl (fun row w => w.onReport row) row = row := by
      refine foldl_keeps (f := Write.onReport) (P := fun row' => row' = row)
        (fun w hw row' heq => ?_) rfl
      subst heq
      cases w with
      | insert => rfl
      | update change =>
          cases change with
          | report id set =>
              simp only [Write.onReport]
              split
              next hid =>
                have hk : row'.reportId = reportId := (rowAt_eq_some hrow).2
                exact absurd (hstill id set row' hw (by rw [← hid, hk]; exact hrow)) hdecided
              next => rfl
          | _ => rfl
    rw [← hkept]
    exact reportAt_foldl hrow
  · obtain ⟨w, hw, hsanction⟩ := List.mem_filterMap.mp hnew
    rw [sanction_eq_some] at hsanction
    subst hsanction
    obtain ⟨ws, new, n, createdAt, hsub, hrow, hj⟩ := h.inserted hw
    obtain ⟨_, _, _, reportId, _, rfl, rfl⟩ := row_eq_userSanction hrow
    obtain ⟨_, id, rep, target, batch, hrep, hid, hpending, htarget, hbatch, hupdated⟩ := hj
    obtain ⟨hin, _⟩ := h.mem_batch hrep hpending htarget hbatch
    obtain ⟨t₀, hsnap, hmem, _⟩ := h.mem_reports hrep
    obtain ⟨set, hset⟩ := hupdated rep hin
    have hwrite := h.issued (hsub hset)
    obtain ⟨row₀, hrow₀, heq⟩ := (h.before t₀ hsnap).reports rep hmem
    obtain ⟨row, hat⟩ : ∃ row, s.db.committed.reportAt row₀.reportId = some row :=
      rowAt_of_mem hrow₀
    rw [heq, hid] at hat
    rw [hid] at hwrite
    obtain ⟨row', hat', hdecided⟩ := decided_after h hwrite hat
    exact ⟨row, row', hat, hstill reportId set row hwrite hat, hat', hdecided⟩

end Commit

section Runs

variable {C : Type} [DecidableEq C] {coll : Infrastructure.Collation} {dep : Deployment}
  {who : C → Int} {req : C → Request} {init : State C} {tr : List (Label C Op Reply)}
  {cfg : Config C Op Reply AppError Unit (State C)}

/-- In a run of any requests whose decisions are committed while the reports are still
pending, a decided report never changes, and the reports that are decided together lead
to one sanction at most. -/
theorem decided_once (h0 : Idle init)
    (h : Run (sem coll) (AtCommits fun _ c s => StillPending c s) (start dep who req init) tr
      cfg) :
    Run (sem coll) (AtCommits fun _ c s =>
        DecidesOnce s.db.committed (s.db.current apply c))
      (start dep who req init) tr cfg := by
  have hboth : Run (sem coll) (AtCommits fun _ c s =>
      StillPending c s ∧ DecidesOnce s.db.committed (s.db.current apply c))
      (start dep who req init) tr cfg := by
    refine (commits_iff (I := fun _ => True) (fun _ _ hI => hI) trivial
      fun tr cfg c hrun _ => ⟨⟨fun hok => hok.1, fun hstill => ⟨hstill, ?_⟩⟩,
        fun _ => trivial⟩).mpr h
    exact decidesOnce (explained_run h0 hrun c) hstill
  exact hboth.mono fun tr cfg l hok c hl => (hok c hl).2

end Runs

/-! ## Two decisions on one report -/

section Samples

open Infrastructure (binaryCollation)

def secondModerator : User := ⟨8, "second", .admin, true⟩

/-- The board with two moderators. -/
def twoModerators : State Bool :=
  { board with
    db := { board.db with
      committed := { board.db.committed with users := [moderator, secondModerator] } } }

def reviewer : Bool → Int
  | false => 9
  | true => 8

def reviewerRow : Bool → User
  | false => moderator
  | true => secondModerator

def warn : ReportProcessRequest := ⟨.accepted, some .warning, none⟩

/-- Both moderators decide the same report. -/
def decideTwice : Bool → Request := fun _ => .processReport 1 warn

/-- What a moderator reads. -/
def warnFront (c : Bool) : List BoardEvent :=
  [⟨.select (.user (reviewer c)), .ok [reviewerRow c]⟩,
    ⟨.select (.report 1), .ok [complaint]⟩, ⟨.select (.anyPost 3), .ok [badPost]⟩,
    ⟨.now, .ok (20000000 : Nat)⟩, ⟨.select (.pendingOf (.post 3)), .ok [complaint]⟩]

def warnWrites (c : Bool) (sanctionId : Int) : List BoardEvent :=
  [⟨.update (.report 1 ⟨.accepted, some (some .warning), some (reviewer c), 20⟩), .ok ()⟩,
    ⟨.insert (.userSanction 5 .warning "SPAM" 1 none), .ok sanctionId⟩,
    ⟨.select (.userSanction sanctionId), .ok [⟨sanctionId, 5, .warning, "SPAM", 1, none⟩]⟩]

def warnBack (c : Bool) (sanctionId : Int) : List BoardEvent :=
  warnWrites c sanctionId ++ [⟨.commit, .ok ()⟩, ⟨.close, .ok ()⟩]

/-- Both decisions succeed: there are two sanctions. -/
theorem decided_twice :
    ¬ ∀ tr cfg, Run (sem binaryCollation) anyStep
        (start sampleDeployment reviewer decideTwice twoModerators) tr cfg →
      (∀ c, (cfg.pool c).outcome = some (.ok ())) →
        cfg.state.db.committed.userSanctions.length ≤ 1 := by
  intro h
  have hchain : ∃ s, Chain (sem binaryCollation) twoModerators
      ((warnFront false).map (.call false) ++ (warnFront true).map (.call true) ++
        (warnBack false 10).map (.call false) ++ (warnBack true 11).map (.call true)) s ∧
      s.db.committed.userSanctions.length = 2 := by
    refine ⟨_, .append (.append (.append
      (.call ⟨rfl, rfl⟩ (.call ⟨rfl, rfl⟩ (.call ⟨rfl, rfl⟩ (.call rfl (.call ⟨.refl _, rfl⟩
        .nil)))))
      (.call ⟨rfl, rfl⟩ (.call ⟨rfl, rfl⟩ (.call ⟨rfl, rfl⟩ (.call rfl (.call ⟨.refl _, rfl⟩
        .nil))))))
      (.call ⟨rfl, free_of_other ?_, rfl⟩ (.call ⟨rfl, 0, _, rfl, free_of_other ?_, rfl⟩
        (.call ⟨rfl, rfl⟩ (.call rfl (.call rfl .nil))))))
      (.call ⟨rfl, free_of_other ?_, rfl⟩ (.call ⟨rfl, 0, _, rfl, free_of_other ?_, rfl⟩
        (.call ⟨rfl, rfl⟩ (.call rfl (.call rfl .nil))))), rfl⟩
    · decide
    · decide
    · decide
    · decide
  obtain ⟨s, hchain, hs⟩ := hchain
  have hrun := Run.of_chain hchain
    (p := fun c => serve sampleDeployment (reviewer c) (decideTwice c))
    (q := fun _ => .ret ()) ?_
  · have hone := h _ _ hrun fun _ => rfl
    exact absurd (hs ▸ hone) (by decide)
  · intro c
    cases c with
    | false =>
        simp only [own_append, own_map_self, own_map_ne Bool.false_ne_true.symm,
          List.append_nil]
        exact .cons (.cons (.cons (.cons (.cons (.cons (.cons (.cons (.cons (.cons .nil)))))))))
    | true =>
        simp only [own_append, own_map_self, own_map_ne Bool.false_ne_true,
          List.append_nil, List.nil_append]
        exact .cons (.cons (.cons (.cons (.cons (.cons (.cons (.cons (.cons (.cons .nil)))))))))

/-- One of the moderators decides, the other has not begun. -/
theorem decided_once_sample : ∃ tr cfg,
    Run (sem binaryCollation) (AtCommits fun _ c s => StillPending c s)
        (start sampleDeployment reviewer decideTwice twoModerators) tr cfg ∧
      cfg.state.db.committed.userSanctions.length = 1 ∧
      Run (sem binaryCollation) (AtCommits fun _ c s =>
          DecidesOnce s.db.committed (s.db.current apply c))
        (start sampleDeployment reviewer decideTwice twoModerators) tr cfg := by
  have hchain : ∃ s, Chain (sem binaryCollation) twoModerators
      ((warnFront false ++ warnWrites false 10).map (.call false)) s ∧
      s.db.committed = twoModerators.db.committed ∧
      (s.db.current apply false).userSanctions.length = 1 := by
    refine ⟨_, .call ⟨rfl, rfl⟩ (.call ⟨rfl, rfl⟩ (.call ⟨rfl, rfl⟩ (.call rfl
      (.call ⟨.refl _, rfl⟩ (.call ⟨rfl, free_of_other ?_, rfl⟩
        (.call ⟨rfl, 0, _, rfl, free_of_other ?_, rfl⟩ (.call ⟨rfl, rfl⟩ .nil))))))), rfl, rfl⟩
    · decide
    · decide
  have hruns : ∃ k, (serve sampleDeployment 9 (.processReport 1 warn)).Runs
      (warnFront false ++ warnWrites false 10) (.call .commit k) :=
    ⟨_, .cons (.cons (.cons (.cons (.cons (.cons (.cons (.cons .nil)))))))⟩
  obtain ⟨s, hchain, hs, hone⟩ := hchain
  obtain ⟨k, hruns⟩ := hruns
  have hrun := Run.of_chain hchain
    (p := fun c => serve sampleDeployment (reviewer c) (decideTwice c))
    (q := fun c => if c then serve sampleDeployment 8 (.processReport 1 warn)
      else .call .commit k) ?_
  · have hcommit : (sem binaryCollation).step false s .commit (.ok ())
        { s with db := s.db.commit apply false } := rfl
    have hguarded : Run (sem binaryCollation) (AtCommits fun _ c s => StillPending c s)
        (start sampleDeployment reviewer decideTwice twoModerators) _ _ :=
      .snoc (hrun.guarded fun tr₁ l tr₂ _ htr _ c hl => ?_) (.call rfl hcommit) ?_
    · exact ⟨_, _, hguarded, hone, decided_once (fun _ => rfl) hguarded⟩
    · -- no commit so far
      have hmem : (Label.call c ⟨.commit, .ok ()⟩ : Label Bool Op Reply) ∈
          (warnFront false ++ warnWrites false 10).map (.call false) :=
        htr ▸ hl ▸ by simp
      simp [warnFront, warnWrites] at hmem
    · rintro c ⟨⟩ reportId set row _ hrow
      rw [hs] at hrow
      have hmem : row ∈ [complaint] := (rowAt_eq_some hrow).1
      rw [List.mem_singleton.mp hmem]
      rfl
  · intro c
    cases c with
    | false =>
        simp only [own_map_self]
        exact hruns
    | true =>
        simp only [own_map_ne Bool.false_ne_true]
        exact .nil

end Samples

end GreenCommunity.Board
