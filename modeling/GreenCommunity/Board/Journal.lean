import GreenCommunity.Board.Deletion
import GreenCommunity.Board.Removal
import GreenCommunity.Board.Settled

/-!
# The journal of the board

Whatever the order in which concurrent requests take their steps, what is committed is
what a journal says: whole batches of writes, one after the other, each from one request.
A request that has ended has put into the journal what `Settled` says, and nothing else.
-/

namespace GreenCommunity.Board

open GreenCommunity.Base
open GreenCommunity.Base.Prog
open GreenCommunity.Infrastructure (Collation)

/-! ## Journals -/

/-- The write that an operation of the ledger has become. -/
def Issued : Op → Write → Prop
  | .insert new, w => ∃ n createdAt row, new.row n createdAt = some row ∧ w = .insert row
  | .update change, w => w = .update change
  | _, _ => False

/-- The tables without the users, who are other people's. -/
def Tables.content (t : Tables) : Tables := { t with users := [] }

section Journals

variable {C : Type} [DecidableEq C]

/-- The tables after the batches of a journal. -/
def replay (journal : List (C × List Write)) (t : Tables) : Tables :=
  journal.foldl (fun t batch => batch.2.foldl apply t) t

/-- The batches of one caller. -/
def batchesOf (c : C) (journal : List (C × List Write)) : List (List Write) :=
  (journal.filter fun batch => batch.1 = c).map Prod.snd

def ledger (c : C) (tr : List (Label C Op Reply)) : Ledger :=
  (own c tr).foldl Ledger.next .empty

/-- What is committed is the journal, and the open transactions are those of the ledgers. -/
structure Journaled (init : Tables) (tr : List (Label C Op Reply)) (s : State C)
    (journal : List (C × List Write)) : Prop where
  committed : s.db.committed.content = replay journal init.content
  pending : ∀ c, List.Forall₂ Issued (ledger c tr).pending (s.db.session c).writes
  batches : ∀ c, List.Forall₂ (List.Forall₂ Issued) (ledger c tr).batches (batchesOf c journal)

omit [DecidableEq C] in
theorem content_apply (t : Tables) (w : Write) : (apply t w).content = apply t.content w := by
  cases w with
  | insert row => cases row <;> rfl
  | update change => cases change <;> rfl

omit [DecidableEq C] in
theorem content_foldl (t : Tables) (ws : List Write) :
    (ws.foldl apply t).content = ws.foldl apply t.content := by
  induction ws generalizing t with
  | nil => rfl
  | cons w ws ih => rw [List.foldl_cons, ih, content_apply, List.foldl_cons]

theorem ledger_self (c : C) (tr : List (Label C Op Reply)) (e : BoardEvent) :
    ledger c (tr ++ [.call c e]) = (ledger c tr).next e := by
  simp [ledger]

theorem ledger_ne {c d : C} (h : d ≠ c) (tr : List (Label C Op Reply)) (e : BoardEvent) :
    ledger d (tr ++ [.call c e]) = ledger d tr := by
  simp [ledger, own_call_ne (Ne.symm h)]

theorem batchesOf_self (c : C) (journal : List (C × List Write)) (ws : List Write) :
    batchesOf c (journal ++ [(c, ws)]) = batchesOf c journal ++ [ws] := by
  simp [batchesOf]

theorem batchesOf_ne {c d : C} (h : d ≠ c) (journal : List (C × List Write))
    (ws : List Write) : batchesOf d (journal ++ [(c, ws)]) = batchesOf d journal := by
  simp [batchesOf, Ne.symm h]

end Journals

section Steps

variable {C : Type} [DecidableEq C] {coll : Collation} {c : C} {s s' : State C}
  {init : Tables} {tr : List (Label C Op Reply)} {journal : List (C × List Write)}

/-- A step that commits nothing, seen from its caller. -/
private theorem journaled_same {e : BoardEvent} (h : Journaled init tr s journal)
    (hcommitted : s'.db.committed = s.db.committed)
    (hothers : ∀ d, d ≠ c → s'.db.session d = s.db.session d)
    (hbatches : ((ledger c tr).next e).batches = (ledger c tr).batches)
    (hpending : List.Forall₂ Issued ((ledger c tr).next e).pending (s'.db.session c).writes) :
    Journaled init (tr ++ [.call c e]) s' journal where
  committed := hcommitted ▸ h.committed
  pending d := by
    by_cases hd : d = c
    · subst hd
      rw [ledger_self]
      exact hpending
    · rw [ledger_ne hd, hothers d hd]
      exact h.pending d
  batches d := by
    by_cases hd : d = c
    · subst hd
      rw [ledger_self, hbatches]
      exact h.batches d
    · rw [ledger_ne hd]
      exact h.batches d

/-- One step of a caller: its commit adds a batch to the journal. -/
theorem Journaled.step {op : Op} {r : Reply op} (h : Journaled init tr s journal)
    (hstep : (sem coll).step c s op r s') :
    ∃ journal', Journaled init (tr ++ [.call c ⟨op, r⟩]) s' journal' := by
  have hothers : ∀ d, d ≠ c → s'.db.session d = s.db.session d :=
    fun d hd => others_step hd (effect_of_step hstep)
  have hquiet : s'.db.committed = s.db.committed →
      (s'.db.session c).writes = (s.db.session c).writes →
        (ledger c tr).next ⟨op, r⟩ = ledger c tr →
          ∃ journal', Journaled init (tr ++ [.call c ⟨op, r⟩]) s' journal' := by
    intro hcommitted hwrites hnext
    refine ⟨journal, journaled_same h hcommitted hothers (by rw [hnext]) ?_⟩
    rw [hnext, hwrites]
    exact h.pending c
  cases r with
  | error e =>
      obtain ⟨_, rfl⟩ := hstep
      exact hquiet rfl rfl (by cases op <;> rfl)
  | ok r =>
      cases op with
      | select query =>
          obtain ⟨_, rfl⟩ := hstep
          exact hquiet rfl (Db.writes_read c) rfl
      | countLikes | getLike =>
          obtain rfl := hstep
          exact hquiet rfl (Db.writes_read c) rfl
      | setLike | now | presign =>
          obtain rfl := hstep
          exact hquiet rfl rfl rfl
      | uuid4 =>
          obtain ⟨_, _, rfl⟩ := hstep
          exact hquiet rfl rfl rfl
      | upload =>
          obtain rfl := hstep
          exact hquiet rfl rfl rfl
      | insert new =>
          obtain ⟨_, createdAt, row, hrow, _, rfl⟩ := hstep
          refine ⟨journal, journaled_same h rfl hothers rfl ?_⟩
          rw [Db.writes_write]
          exact List.rel_append (h.pending c) (.cons ⟨r, createdAt, row, hrow, rfl⟩ .nil)
      | update change =>
          obtain ⟨_, _, rfl⟩ := hstep
          refine ⟨journal, journaled_same h rfl hothers rfl ?_⟩
          rw [Db.writes_write]
          exact List.rel_append (h.pending c) (.cons rfl .nil)
      | rollback | close =>
          obtain rfl := hstep
          refine ⟨journal, journaled_same h rfl hothers rfl ?_⟩
          rw [Db.session_rollback]
          exact .nil
      | commit =>
          obtain rfl := hstep
          refine ⟨journal ++ [(c, (s.db.session c).writes)], ?_, fun d => ?_, fun d => ?_⟩
          · rw [replay, List.foldl_append]
            show (s.db.current apply c).content = _
            rw [Db.current, content_foldl, h.committed]
            rfl
          · by_cases hd : d = c
            · subst hd
              rw [ledger_self, Db.session_commit]
              exact .nil
            · rw [ledger_ne hd, Db.session_commit_ne hd]
              exact h.pending d
          · by_cases hd : d = c
            · subst hd
              rw [ledger_self, batchesOf_self]
              exact List.rel_append (h.batches d) (.cons (h.pending d) .nil)
            · rw [ledger_ne hd, batchesOf_ne hd]
              exact h.batches d

/-- The rows of a lookup have the number that was asked for. -/
theorem truthful_step {op : Op} {r : Reply op} (hstep : (sem coll).step c s op r s') :
    Truthful ⟨op, r⟩ := by
  have hfilter : ∀ {R : Type} {key : R → Int} {k : Int} {rows : List R} {row : R},
      (row ∈ rows.filter fun row => key row == k) → key row = k :=
    fun hrow => by simpa using (List.mem_filter.mp hrow).2
  cases r with
  | error e =>
      cases op with
      | rollback | close => exact hstep.1
      | select query => cases query <;> trivial
      | _ => trivial
  | ok r =>
      cases op with
      | select query =>
          have hrows := hstep.1
          cases query with
          | user | activePost | anyPost | activeComment | report =>
              obtain rfl := hrows
              exact fun row hrow => hfilter hrow
          | postDetail =>
              obtain rfl := hrows
              exact fun row hrow => hfilter (fst_mem_of_withAuthors hrow)
          | pendingOf target =>
              intro row hrow
              obtain ⟨hpending, htarget⟩ := List.mem_filter.mp
                ((show r.Perm _ from hrows).mem_iff.mp hrow)
              exact ⟨by simpa using (List.mem_filter.mp hpending).2, includes_iff.mp htarget⟩
          | _ => trivial
      | _ => trivial

end Steps

/-! ## The report and the reports of its target -/

section Asking

variable {α : Type} {reportId : Int} {x : Summary}

/-- The reports of a target are asked for only behind the report that is to be decided, and
before anything is written. -/
def Asks (reportId : Int) (x : Summary) (e : BoardEvent) : Prop :=
  ∀ target rows, e = ⟨.select (.pendingOf target), .ok rows⟩ → x.writes = [] ∧
    ∃ rep, x.Read (.report reportId) [rep] ∧ rep.reportStatus = .pending ∧
      rep.target = some target

def Op.elsewhere : Op → Prop
  | .select (.pendingOf _) => False
  | _ => True

theorem asks_of_elsewhere {op : Op} (h : op.elsewhere) (r : Reply op) :
    Asks reportId x ⟨op, r⟩ := by
  rintro target rows ⟨⟩
  exact h.elim

theorem asks_of_every {p : BoardM α} (h : p.Every Op.elsewhere) :
    p.Track Summary.next (Asks reportId) anyEnd x :=
  h.track (K := fun _ => True) (fun _ _ r hop _ => ⟨asks_of_elsewhere hop r, trivial⟩) trivial

/-- What comes behind a program that only reads, and asks for no such reports. -/
theorem asks_bind {β : Type} {p : BoardM α} {f : α → BoardM β}
    (h : p.Every fun op => op.plain ∧ op.elsewhere)
    (hf : ∀ a x', Later x x' → (f a).Track Summary.next (Asks reportId) anyEnd x') :
    (p >>= f).Track Summary.next (Asks reportId) anyEnd x := by
  refine track_bind.mpr (Track.imp ?_ (h.track (K := Later x)
    (fun x' _ r hop hx => ⟨asks_of_elsewhere hop.2 r, hx.trans (later_next hop.1 r)⟩) (.refl x)))
  rintro x' (e | a) hx
  · trivial
  · exact hf a x' hx

theorem decide_asks (request : ReportProcessRequest) {reviewerUserId : Int} {rep : Report}
    {target : Target} (hw : x.writes = []) (hread : x.Read (.report reportId) [rep])
    (hpending : rep.reportStatus = .pending) (htarget : rep.target = some target) :
    (ReportService.decide rep reviewerUserId request).Track Summary.next (Asks reportId) anyEnd
      x := by
  refine track_handle.mpr (Track.imp (R := anyEnd) ?_ ?_)
  · rintro x' (e | a) _
    · exact asks_of_every (every_bind (Infrastructure.every_perform trivial)
        fun _ => every_raise e)
    · trivial
  refine asks_bind (Infrastructure.every_perform ⟨trivial, trivial⟩) fun now x' hx => ?_
  rw [ReportRepository.updateReport, sameReports_of_target htarget]
  simp only [ret_bind, bind_assoc]
  refine (track_call _ _).mpr fun r => ⟨?_, ?_⟩
  · rintro _ rows ⟨⟩
    exact ⟨hx.writes.trans hw, rep, hx.reads hread, hpending, htarget⟩
  cases r with
  | error e => trivial
  | ok rows =>
      have hhide : (ReportService.hide rep request).Every Op.elsewhere := by
        have hcontent : (ReportService.hideReportedContent rep).Every Op.elsewhere := by
          rw [ReportService.hideReportedContent]
          split
          · refine every_bind (getAnyById_every trivial) fun found => ?_
            cases found with
            | none => trivial
            | some post =>
                dsimp only
                split
                · trivial
                · exact Infrastructure.every_perform trivial
          all_goals trivial
        rw [ReportService.hide]
        split <;> first | exact hcontent | trivial
      have hsanction : (ReportService.sanction rep request).Every Op.elsewhere := by
        rw [ReportService.sanction]
        split
        · rw [ReportService.addUserSanction]
          split
          · trivial
          split
          · trivial
          exact every_bind (every_bind (Infrastructure.every_perform trivial) fun _ =>
            every_bind (Infrastructure.every_perform trivial) fun _ =>
              Infrastructure.every_refreshed) fun _ => trivial
        · trivial
      show Track _ _ (List.forM (rows.insertionSort _) _ >>= _) _ _
      refine asks_of_every (every_bind (every_forM (fun row =>
        Infrastructure.every_perform trivial) _) fun _ => ?_)
      exact every_bind (every_ret _) fun _ => every_bind hhide fun _ =>
        every_bind hsanction fun _ => Infrastructure.every_perform trivial

theorem processReport_asks (request : ReportProcessRequest) {reviewerUserId : Int}
    (hw : x.writes = []) :
    (ReportService.processReport reportId reviewerUserId request).Track Summary.next
      (Asks reportId) anyEnd x := by
  rw [ReportService.processReport, ReportRepository.getById]
  simp only [bind_assoc]
  have hquery : (Op.select (.report reportId)).elsewhere := trivial
  refine (track_call _ _).mpr fun r => ⟨asks_of_elsewhere hquery r, ?_⟩
  cases r with
  | error e => trivial
  | ok rows =>
      match rows with
      | [] => trivial
      | _ :: _ :: _ => trivial
      | [rep] =>
          show Track _ _ (ReportService.validateReport _ _ _ _ _ >>= _) _ _
          by_cases hvalid : rep.reportStatus = .pending ∧ ∃ target, rep.target = some target
          · obtain ⟨hpending, target, htarget⟩ := hvalid
            refine asks_bind (validateReport_every (fun _ => ⟨trivial, trivial⟩)
              (fun _ => ⟨trivial, trivial⟩) _ _ _ _ _) fun _ x' hx => ?_
            split
            · trivial
            · refine decide_asks request (hx.writes.trans hw) (hx.reads ?_) hpending htarget
              simp [Summary.next, hw]
          · obtain ⟨e, he⟩ := validateReport_raise hvalid
            rw [he]
            trivial

def Request.Asks : Request → Summary → BoardEvent → Prop
  | .processReport reportId _ => Board.Asks reportId
  | _ => fun _ _ => True

theorem serve_asks (dep : Deployment) (userId : Int) (req : Request) :
    (serve dep userId req).Track Summary.next req.Asks anyEnd .empty := by
  cases req with
  | processReport reportId request =>
      refine Infrastructure.track_inSession ?_
        (fun _ => asks_of_every (Infrastructure.every_perform trivial))
        (fun _ => asks_of_every (Infrastructure.every_perform trivial))
      exact asks_bind (getCurrentUser_every ⟨trivial, trivial⟩) fun user x hx =>
        processReport_asks request hx.writes
  | _ => exact track_of_forall _ fun _ _ => trivial

end Asking

/-! ## Runs -/

section Runs

variable {C : Type} [DecidableEq C] {coll : Collation} {dep : Deployment} {who : C → Int}
  {req : C → Request} {init : State C} {tr : List (Label C Op Reply)}
  {cfg : Config C Op Reply AppError Unit (State C)}

theorem journaled_run (h0 : Idle init)
    (h : Run (sem coll) anyStep (start dep who req init) tr cfg) :
    ∃ journal, Journaled init.db.committed tr cfg.state journal := by
  refine Run.inv (fun tr cfg => ∃ journal, Journaled init.db.committed tr cfg.state journal)
    ⟨[], rfl, fun c => ?_, fun c => .nil⟩ ?_ h
  · show List.Forall₂ Issued [] (init.db.session c).writes
    rw [h0 c]
    exact .nil
  intro tr cfg l cfg' _ ih hl _
  obtain ⟨journal, hj⟩ := ih
  cases hl with
  | env henv =>
      obtain ⟨users, rfl⟩ := henv
      refine ⟨journal, hj.committed, fun c => ?_, fun c => ?_⟩
      · simpa [ledger] using hj.pending c
      · simpa [ledger] using hj.batches c
  | call _ hstep => exact hj.step hstep

/-- The report that is decided is among the reports of its target: the transaction has read
them all in one snapshot. -/
theorem named_step {c : C} {e : BoardEvent} {cfg' : Config C Op Reply AppError Unit (State C)}
    {reportId : Int} {request : ReportProcessRequest} (h0 : Idle init)
    (h : Run (sem coll) anyStep (start dep who req init) tr cfg)
    (hl : Step (sem coll) cfg (.call c e) cfg') (hreq : req c = .processReport reportId request) :
    Names reportId e := by
  rintro target rows rfl
  have hasks := h.track_step (fun c => serve_asks dep (who c) (req c)) hl
  rw [hreq] at hasks
  obtain ⟨hw, rep, hread, hpending, htarget⟩ := hasks target rows rfl
  have hexp := explained_run h0 (h.snoc hl trivial) c
  rw [summary_self] at hexp
  have hreads : ((summary c tr).next ⟨.select (.pendingOf target), .ok rows⟩).reads =
      (summary c tr).reads ++ [⟨.select (.pendingOf target), .ok rows⟩] := by
    simp [Summary.next, show (summary c tr).writes = [] from hw]
  have hmono : ∀ e ∈ (summary c tr).reads ++ [⟨.select (.pendingOf target), .ok rows⟩],
      e ∈ ((summary c tr).next ⟨.select (.pendingOf target), .ok rows⟩).reads :=
    fun e he => hreads.symm ▸ he
  obtain ⟨hmem, hid⟩ := hexp.mem_batch (hmono _ (List.mem_append_left _ hread)) hpending htarget
    (hmono _ (List.mem_append_right _ (List.mem_singleton.mpr rfl)))
  exact ⟨rep, hmem, hid⟩

theorem told_step {c : C} {e : BoardEvent} {tr' : List (Label C Op Reply)}
    {cfg' : Config C Op Reply AppError Unit (State C)} (h0 : Idle init)
    (h : Run (sem coll) anyStep (start dep who req init) tr cfg)
    (hl : Step (sem coll) cfg (.call c e) cfg') :
    Told (req c) (own c (tr ++ .call c e :: tr')) e where
  truthful := by
    cases hl with
    | call _ hstep => exact truthful_step hstep
  mem := by
    rw [← List.singleton_append, own_append, own_append, own_call_self]
    simp
  named _ _ hreq := named_step h0 h hl hreq

/-- In any interleaving what is committed is the initial board and then, batch by batch, a
journal; and a request that has ended has put into it what it was sent for, as a whole, or
nothing, but for what comes behind its commit. -/
theorem requests_are_journaled (h0 : Idle init)
    (h : Run (sem coll) anyStep (start dep who req init) tr cfg) :
    ∃ journal : List (C × List Write),
      cfg.state.db.committed.content = replay journal init.db.committed.content ∧
        ∀ c o, (cfg.pool c).outcome = some o → ∃ batches,
          (req c).Settled dep (who c) (own c tr) o.isOk batches ∧
            List.Forall₂ (List.Forall₂ Issued) batches (batchesOf c journal) := by
  obtain ⟨journal, hj⟩ := journaled_run h0 h
  have hguarded : Run (sem coll)
      (fun _ _ l => ∀ c e, l = .call c e → Told (req c) (own c tr) e)
      (start dep who req init) tr cfg := by
    refine h.guarded fun tr₁ l tr₂ cfg₁ htr hrun c e hl => ?_
    subst hl
    obtain ⟨cfg₁', cfg₂, hrun₁, hl, _⟩ := h.split htr
    rw [htr]
    exact told_step h0 hrun₁ hl
  refine ⟨journal, hj.committed, fun c o ho => ⟨_, ?_, hj.batches c⟩⟩
  exact hguarded.records_outcome (A := fun c _ e => Told (req c) (own c tr) e)
    (fun _ _ c e hok => hok c e rfl) (fun c => serve_settles dep (who c) (req c)) ho

end Runs

/-! ## A deletion during a ban -/

section Samples

open Infrastructure (binaryCollation)

/-- Two batches are committed, one of each request: the deletion, and behind it the decision
with the hiding of the post and the sanction of its author. -/
theorem requests_are_journaled_sample : ∃ tr cfg,
    Run (sem binaryCollation) anyStep (start sampleDeployment deleter deleteAndBan board) tr cfg ∧
      (∀ c, (cfg.pool c).outcome = some (.ok ())) ∧
      cfg.state.db.committed.posts =
        [{ badPost with postStatus := .hidden, deletedAt := some 20 }] ∧
      ∃ journal : List (Bool × List Write),
        cfg.state.db.committed.content = replay journal board.db.committed.content ∧
          ∀ c o, (cfg.pool c).outcome = some o → ∃ batches,
            (deleteAndBan c).Settled sampleDeployment (deleter c) (own c tr) o.isOk batches ∧
              List.Forall₂ (List.Forall₂ Issued) batches (batchesOf c journal) := by
  obtain ⟨tr, cfg, hrun, hdone, hposts⟩ := hiding_run
  exact ⟨tr, cfg, hrun, hdone, hposts, requests_are_journaled idle_board hrun⟩

end Samples

end GreenCommunity.Board
