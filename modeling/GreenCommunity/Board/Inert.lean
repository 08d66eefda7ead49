import GreenCommunity.Board.Filing
import GreenCommunity.Board.References
import GreenCommunity.Board.Removal

/-!
# Moderation without reports

A report names a post, a comment or a user, and each leaves a column empty that may not be
NULL, so that none is ever filed.  On a board without reports nobody is sanctioned then and
nothing hidden, whoever sends what.
-/

namespace GreenCommunity.Board

open GreenCommunity.Base
open GreenCommunity.Base.Prog
open GreenCommunity.Infrastructure (Collation every_perform)

/-! ## What no request does -/

/-- A write that neither files a report nor acts on one. -/
def Write.Harmless : Write → Prop
  | .insert (.report _) | .insert (.userSanction _) => False
  | .insert (.post row) => row.postStatus ≠ .hidden
  | .update (.post _ set) => set.postStatus ≠ some .hidden
  | _ => True

/-- The same of an operation, which may try to file a report that does not fit. -/
def Op.Harmless : Op → Prop
  | .insert (.userSanction _ _ _ _ _) => False
  | .insert new => new.table = .reports → new.hasNull = true
  | .update (.post _ set) => set.postStatus ≠ some .hidden
  | _ => True

/-- The tables `t` have become `t'` without any moderation. -/
structure Inert (t t' : Tables) : Prop where
  reports : t.reports = [] → t'.reports = []
  sanctions : t'.userSanctions = t.userSanctions
  hidden : ∀ row ∈ t'.posts, row.postStatus = .hidden →
    ∃ old ∈ t.posts, old.postId = row.postId ∧ old.postStatus = .hidden

section Writes

variable {t t' t'' : Tables} {w : Write}

theorem Inert.refl (t : Tables) : Inert t t :=
  ⟨id, rfl, fun row hrow hhidden => ⟨row, hrow, rfl, hhidden⟩⟩

theorem Inert.trans (h : Inert t t') (h' : Inert t' t'') : Inert t t'' where
  reports hnone := h'.reports (h.reports hnone)
  sanctions := h'.sanctions.trans h.sanctions
  hidden row hrow hhidden := by
    obtain ⟨old, hold, hid, hhidden'⟩ := h'.hidden row hrow hhidden
    obtain ⟨older, holder, hid', holder'⟩ := h.hidden old hold hhidden'
    exact ⟨older, holder, hid'.trans hid, holder'⟩

theorem Inert.users (t : Tables) (users : List User) : Inert t { t with users } :=
  ⟨id, rfl, fun row hrow hhidden => ⟨row, hrow, rfl, hhidden⟩⟩

/-- A post that an update hides. -/
private theorem hidden_of_set {row : Post} {set : PostSet}
    (hset : set.postStatus ≠ some .hidden) (h : (row.set set).postStatus = .hidden) :
    row.postStatus = .hidden := by
  cases hs : set.postStatus with
  | none => simpa [Post.set, hs] using h
  | some status =>
      have hsame : status = .hidden := by simpa [Post.set, hs] using h
      exact absurd (hsame ▸ hs) hset

theorem Inert.apply (t : Tables) {w : Write} (hw : w.Harmless) : Inert t (apply t w) := by
  have hsame : ∀ row ∈ t.posts, row.postStatus = .hidden →
      ∃ old ∈ t.posts, old.postId = row.postId ∧ old.postStatus = .hidden :=
    fun row hrow hhidden => ⟨row, hrow, rfl, hhidden⟩
  cases w with
  | insert new =>
      cases new with
      | post new =>
          refine ⟨id, rfl, fun row hrow hhidden => ?_⟩
          rcases List.mem_append.mp hrow with hold | hlast
          · exact hsame row hold hhidden
          · rw [List.mem_singleton.mp hlast] at hhidden
            exact absurd hhidden hw
      | report | userSanction => exact hw.elim
      | postImage | comment => exact ⟨id, rfl, hsame⟩
  | update change =>
      cases change with
      | post postId set =>
          refine ⟨id, rfl, fun row hrow hhidden => ?_⟩
          rcases mem_updateAt.mp hrow with ⟨old, hold, _, rfl⟩ | ⟨hold, _⟩
          · exact ⟨old, hold, rfl, hidden_of_set hw hhidden⟩
          · exact hsame row hold hhidden
      | views postId =>
          refine ⟨id, rfl, fun row hrow hhidden => ?_⟩
          rcases mem_updateAt.mp hrow with ⟨old, hold, _, rfl⟩ | ⟨hold, _⟩
          · exact ⟨old, hold, rfl, hhidden⟩
          · exact hsame row hold hhidden
      | report reportId set =>
          refine ⟨fun hnone => ?_, rfl, hsame⟩
          show updateAt _ _ _ t.reports = []
          rw [hnone]
          rfl
      | comment => exact ⟨id, rfl, hsame⟩

theorem Inert.foldl (t : Tables) {ws : List Write} (hws : ∀ w ∈ ws, w.Harmless) :
    Inert t (ws.foldl Board.apply t) := by
  induction ws generalizing t with
  | nil => exact .refl t
  | cons w ws ih =>
      exact (Inert.apply t (hws w List.mem_cons_self)).trans
        (ih _ fun w' hw' => hws w' (List.mem_cons_of_mem _ hw'))

/-- A row that fits is harmless. -/
theorem harmless_insert {new : NewRow} {n : Int} {createdAt : Nat} {row : Row}
    (hrow : new.row n createdAt = some row) (h : (Op.insert new).Harmless) :
    Write.Harmless (.insert row) := by
  cases row with
  | post row =>
      obtain ⟨_, _, _, rfl, rfl⟩ := row_eq_post hrow
      exact nofun
  | userSanction row =>
      obtain ⟨_, _, _, _, _, rfl, _⟩ := row_eq_userSanction hrow
      exact h
  | report row =>
      cases new with
      | report reporter type postId title content commentId commentContent reported category
          reason =>
          have hnull : (title.isNone || content.isNone || commentContent.isNone) = true := h rfl
          cases title <;> cases content <;> cases commentContent <;>
            first | cases hrow | simp at hnull
      | _ => simp [NewRow.row] at hrow
  | _ => trivial

end Writes

/-! ## A board without reports -/

section States

variable {C : Type} {coll : Collation} {init : Tables} {s s' : State C}

/-- No report is there, and nothing has come of one since `init`. -/
structure Unreported (init : Tables) (s : State C) : Prop where
  reports : s.db.committed.reports = []
  inert : Inert init s.db.committed
  snapshot : ∀ c t, (s.db.session c).snapshot = some t → t.reports = []
  writes : ∀ c, ∀ w ∈ (s.db.session c).writes, w.Harmless

theorem unreported_of_idle (h0 : Idle s) (hnone : s.db.committed.reports = []) :
    Unreported s.db.committed s where
  reports := hnone
  inert := .refl _
  snapshot c t ht := by
    rw [h0 c] at ht
    cases ht
  writes c w hw := by
    rw [h0 c] at hw
    cases hw

theorem Unreported.source (h : Unreported init s) (c : C) :
    ((s.db.session c).snapshot.getD s.db.committed).reports = [] := by
  cases hs : (s.db.session c).snapshot with
  | none => exact h.reports
  | some t => exact h.snapshot c t hs

theorem Unreported.view (h : Unreported init s) (c : C) :
    (s.db.view apply c).reports = [] :=
  (Inert.foldl _ (h.writes c)).reports (h.source c)

theorem Unreported.others (h : Unreported init s) (henv : others s s') :
    Unreported init s' := by
  obtain ⟨users, rfl⟩ := henv
  exact ⟨h.reports, h.inert.trans (.users _ users), h.snapshot, h.writes⟩

variable [DecidableEq C] {c : C} {e : BoardEvent}

/-- The writes after a step: those from before, and what the step has written. -/
private theorem harmless_write {w : Write} (h : Unreported init s) (hw : w.Harmless)
    (hdb : s'.db = s.db.write c w) : ∀ d, ∀ w ∈ (s'.db.session d).writes, w.Harmless := by
  intro d w' hw'
  rw [hdb] at hw'
  by_cases hd : d = c
  · subst hd
    rw [Db.writes_write] at hw'
    rcases List.mem_append.mp hw' with hold | hnew
    · exact h.writes d w' hold
    · exact List.mem_singleton.mp hnew ▸ hw
  · rw [Db.session_write_ne hd] at hw'
    exact h.writes d w' hw'

theorem Unreported.step (h : Unreported init s) (hop : e.op.Harmless)
    (heff : Effect coll c s e s') : Unreported init s' := by
  have hsnap : ∀ d t, (s'.db.session d).snapshot = some t → t.reports = [] :=
    fun d t ht => heff.snapshot ht ▸ h.source d
  have hsame : s'.db.committed = s.db.committed →
      (∀ d, ∀ w ∈ (s'.db.session d).writes, w.Harmless) → Unreported init s' :=
    fun hdb hwrites => ⟨hdb ▸ h.reports, hdb ▸ h.inert, hsnap, hwrites⟩
  have hended : (∀ d, (s'.db.session d).writes ⊆ (s.db.session d).writes) →
      ∀ d, ∀ w ∈ (s'.db.session d).writes, w.Harmless :=
    fun hsub d w hw => h.writes d w (hsub d hw)
  cases heff with
  | quiet hdb => exact hsame (by rw [hdb]) (hended fun d => by rw [hdb]; exact List.Subset.refl _)
  | read hdb | select _ _ _ _ hdb =>
      refine hsame (by rw [hdb]; rfl) (hended fun d => ?_)
      rw [hdb]
      by_cases hd : d = c
      · subst hd
        rw [Db.writes_read]
        exact List.Subset.refl _
      · rw [Db.session_read_ne hd]
        exact List.Subset.refl _
  | insert new n createdAt row he _ hrow hdb _ =>
      subst he
      exact hsame (by rw [hdb]; rfl) (harmless_write h (harmless_insert hrow hop) hdb)
  | update change he hdb _ =>
      subst he
      refine hsame (by rw [hdb]; rfl) (harmless_write h ?_ hdb)
      cases change with
      | post => exact hop
      | _ => trivial
  | commit _ hdb _ =>
      have hstep : Inert s.db.committed s'.db.committed := by
        rw [hdb]
        exact Inert.foldl _ (h.writes c)
      refine ⟨hstep.reports h.reports, h.inert.trans hstep, hsnap, hended fun d => ?_⟩
      rw [hdb]
      by_cases hd : d = c
      · subst hd
        rw [Db.session_commit]
        exact List.nil_subset _
      · rw [Db.session_commit_ne hd]
        exact List.Subset.refl _
  | rollback hdb _ _ =>
      refine hsame (by rw [hdb]; rfl) (hended fun d => ?_)
      rw [hdb]
      by_cases hd : d = c
      · subst hd
        rw [Db.session_rollback]
        exact List.nil_subset _
      · rw [Db.session_rollback_ne hd]
        exact List.Subset.refl _

end States

/-! ## The requests -/

section Requests

variable {C : Type} [DecidableEq C] {coll : Collation} {init : Tables} {c : C} {α β : Type}
  {s : State C}

/-- Where no report is, the program does no harm, and `Q` holds of its end. -/
abbrev Calm (coll : Collation) (init : Tables) (c : C) (p : BoardM α)
    (Q : Except AppError α → Prop) (s : State C) : Prop :=
  p.Among (sem coll) c (fun _ _ => True) (fun s _ => Unreported init s)
    (fun _ e _ => e.op.Harmless) (fun o _ => Q o) s

/-- A request about reports does not succeed. -/
def Request.onReport : Request → Prop
  | .addReport _ | .processReport _ _ => True
  | _ => False

def Fails (o : Except AppError α) : Prop := o.isOk = false

theorem calm_bind {p : BoardM α} {f : α → BoardM β} (hp : Calm coll init c p Fails s) :
    Calm coll init c (p >>= f) Fails s := by
  refine among_bind.mpr (Among.imp ?_ hp)
  rintro (e | a) s' h
  · rfl
  · cases h

/-- What comes behind a program that reads. -/
theorem calm_then {p : BoardM α} {f : α → BoardM β} {P : α → Prop}
    (hp : Calm coll init c p (fun o => ∀ a, o = .ok a → P a) s)
    (hf : ∀ a s', P a → Calm coll init c (f a) Fails s') :
    Calm coll init c (p >>= f) Fails s := by
  refine among_bind.mpr (Among.imp ?_ hp)
  rintro (e | a) s' h
  · rfl
  · exact hf a s' (h a rfl)

theorem calm_of_every {p : BoardM α} (h : p.Every Op.Harmless) {Q : Except AppError α → Prop}
    (hQ : ∀ o, Q o) : Calm coll init c p Q s :=
  h.among (fun _ _ _ _ hop _ _ => hop) fun o _ => hQ o

theorem harmless_select (query : Query) : Op.Harmless (.select query) := trivial

/-- The texts that a report keeps: there is one less than there are columns. -/
def ReportService.Reported.Partial (reported : ReportService.Reported) : Prop :=
  reported.postContent = none ∨ reported.commentContent = none

theorem hasNull_of_partial {reported : ReportService.Reported} (h : reported.Partial)
    (reporterUserId : Option Int) (type : ContentType) (postId commentId : Option Int)
    (category : String) (reason : Option String) :
    (NewRow.report reporterUserId type postId reported.postTitle reported.postContent commentId
      reported.commentContent reported.reportedUserId category reason).hasNull = true := by
  rcases h with h | h <;> simp [NewRow.hasNull, h]

/-- A lookup, and what is made of the row. -/
theorem calm_find {p : BoardM (Option α)} (hp : p.Every Op.Harmless)
    {f : Option α → BoardM β} {Q : Except AppError β → Prop} (herr : ∀ e, Q (.error e))
    (hf : ∀ found s', Calm coll init c (f found) Q s') : Calm coll init c (p >>= f) Q s := by
  refine among_bind.mpr (Among.imp ?_ (calm_of_every hp (Q := fun _ => True) fun _ => trivial))
  rintro (e | found) s' _
  · exact herr e
  · exact hf found s'

theorem validatePost_partial (postId commentId : Option Int) :
    Calm coll init c (ReportService.validatePost postId commentId)
      (fun o => ∀ r, o = .ok r → r.Partial) s := by
  cases postId with
  | none => cases commentId <;> exact nofun
  | some postId =>
      cases commentId with
      | some commentId => exact nofun
      | none =>
          refine calm_find (getAnyById_every (harmless_select _)) (fun _ => nofun)
            fun found s' => ?_
          cases found with
          | none => exact nofun
          | some post =>
              rintro _ ⟨⟩
              exact Or.inr rfl

theorem validateComment_partial (postId commentId : Option Int) :
    Calm coll init c (ReportService.validateComment postId commentId)
      (fun o => ∀ r, o = .ok r → r.Partial) s := by
  cases postId with
  | none => cases commentId <;> exact nofun
  | some postId =>
      cases commentId with
      | none => exact nofun
      | some commentId =>
          refine calm_find (getComment_every (harmless_select _)) (fun _ => nofun)
            fun found s' => ?_
          cases found with
          | none => exact nofun
          | some comment =>
              dsimp only
              split
              · exact nofun
              refine calm_find (getAnyById_every (harmless_select _)) (fun _ => nofun)
                fun found s' => ?_
              cases found with
              | none => exact nofun
              | some post =>
                  rintro _ ⟨⟩
                  exact Or.inl rfl

/-- Whatever is reported, a text is missing. -/
theorem validateReport_unset (type : ContentType) (postId commentId reportedUserId : Option Int)
    (status : Option ReportStatus) :
    Calm coll init c (ReportService.validateReport type postId commentId reportedUserId status)
      (fun o => ∀ r, o = .ok r → r.Partial) s := by
  unfold ReportService.validateReport
  split
  · exact nofun
  cases type with
  | post => exact validatePost_partial postId commentId
  | comment => exact validateComment_partial postId commentId
  | user =>
      show Calm coll init c (ReportService.validateUser postId commentId reportedUserId) _ s
      cases postId with
      | some => exact nofun
      | none =>
          cases commentId with
          | some => exact nofun
          | none =>
              cases reportedUserId with
              | none => exact nofun
              | some reportedUserId =>
                  rintro _ ⟨⟩
                  exact Or.inl rfl

/-- A report that does not fit is not inserted. -/
theorem addReport_fails (request : ReportCreateRequest) (user : User) :
    Calm coll init c (ReportService.addReport request user) Fails s := by
  refine calm_then (validateReport_unset _ _ _ _ _) fun reported s₁ hpartial => ?_
  have hnull := hasNull_of_partial hpartial (some user.userId) request.reportContentType
    request.postId request.commentId request.reportCategory request.reportReason
  have hbody : Calm coll init c (ReportRepository.addReport (.report (some user.userId)
      request.reportContentType request.postId reported.postTitle reported.postContent
      request.commentId reported.commentContent reported.reportedUserId
      request.reportCategory request.reportReason)) Fails s₁ := by
    refine among_bind.mpr (Infrastructure.among_perform ?_ fun _ _ _ _ _ _ => ⟨fun _ => hnull, rfl⟩)
    rintro s₀ n s' _ ⟨_, createdAt, row, hrow, _⟩ _
    rw [row_of_missing hpartial] at hrow
    cases hrow
  refine among_handle.mpr (Among.imp ?_ (calm_bind hbody))
  rintro (e | report) s' h
  · refine among_bind.mpr (Infrastructure.among_perform ?_ ?_) <;>
      exact fun _ _ _ _ _ _ => ⟨trivial, rfl⟩
  · cases h

/-- There is no report to decide. -/
theorem processReport_fails (reportId reviewerUserId : Int) (request : ReportProcessRequest) :
    Calm coll init c (ReportService.processReport reportId reviewerUserId request) Fails s := by
  have hlookup : Calm coll init c (ReportRepository.getById reportId)
      (fun o => ∀ found, o = .ok found → found = none) s := by
    refine among_bind.mpr (Infrastructure.among_perform ?_
      fun _ _ _ _ _ _ => ⟨trivial, fun _ h => by cases h⟩)
    rintro s₀ rows s' _ ⟨hrows, _⟩ hunreported
    refine ⟨trivial, ?_⟩
    have hnone : rows = [] := by
      rw [show rows = _ from hrows, hunreported.view c]
      rfl
    rw [hnone]
    rintro _ ⟨⟩
    rfl
  refine calm_then hlookup fun found s' hfound => ?_
  subst hfound
  rfl

/-- Rolling back and closing bring no success. -/
theorem calm_inSession {body : BoardM α} (h : Calm coll init c body Fails s) :
    Calm coll init c (inSession body) Fails s := by
  have hend : ∀ (op : Op) (o : Except AppError α) (s' : State C), op = .rollback ∨ op = .close →
      Fails o → (perform op).Among (sem coll) c (fun _ _ => True)
        (fun s _ => Unreported init s) (fun _ e _ => e.op.Harmless)
        (fun o' _ => Fails (o'.bind fun _ => o)) s' := by
    rintro op o s' (rfl | rfl) ho <;>
      exact Infrastructure.among_perform (fun _ _ _ _ _ _ => ⟨trivial, ho⟩)
        fun _ _ _ _ _ _ => ⟨trivial, rfl⟩
  exact Infrastructure.among_inSession (fun o s' ho => hend .close o s' (Or.inr rfl) ho)
    (fun e s' _ => hend .rollback (.error e) s' (Or.inl rfl) rfl) h

/-- What a request may write does no harm, but for the work on reports. -/
theorem writes_harmless {req : Request} (hreq : ¬ req.onReport) {op : Op} (h : req.Writes op) :
    op.Harmless := by
  have hset : ∀ {set : PostSet}, set.ByOwner → set.postStatus ≠ some .hidden := by
    rintro set (⟨hstatus, _⟩ | ⟨now, rfl⟩)
    · rw [hstatus]
      exact nofun
    · exact nofun
  cases op with
  | insert new =>
      cases new with
      | report => cases req <;> first | exact h.elim | exact absurd trivial hreq
      | userSanction => cases req <;> first | exact h.elim | exact absurd trivial hreq
      | _ => exact nofun
  | update change =>
      cases change with
      | post =>
          cases req with
          | updatePost | deletePost => exact hset h
          | processReport => exact absurd trivial hreq
          | _ => exact h.elim
      | _ => trivial
  | _ => trivial

theorem serve_calm (dep : Deployment) (userId : Int) (req : Request) :
    Calm coll init c (serve dep userId req) (fun o => req.onReport → Fails o) s := by
  have hbegin : ∀ {p : User → BoardM Unit}, (∀ user s', Calm coll init c (p user) Fails s') →
      Calm coll init c (inSession (getCurrentUser userId >>= p)) Fails s := fun hp =>
    calm_inSession (calm_then (P := fun _ => True)
      (calm_of_every (getCurrentUser_every (harmless_select _)) fun _ _ _ => trivial)
      fun user s' _ => hp user s')
  by_cases hreq : req.onReport
  · refine Among.imp (fun o _ h _ => h) ?_
    cases req with
    | addReport => exact hbegin fun user s' => calm_bind (addReport_fails _ user)
    | processReport => exact hbegin fun user s' => processReport_fails _ _ _
    | _ => exact hreq.elim
  · exact calm_of_every (Every.imp (fun _ h => writes_harmless hreq h)
      (serve_writes dep userId req)) fun _ h => absurd h hreq

end Requests

/-! ## Runs -/

section Runs

variable {C : Type} [DecidableEq C] {coll : Collation} {dep : Deployment} {who : C → Int}
  {req : C → Request} {init : State C} {tr : List (Label C Op Reply)}
  {cfg : Config C Op Reply AppError Unit (State C)}

/-- On a board without reports, in any interleaving of any requests, no report is ever
filed or decided, nobody is sanctioned, and no post is hidden that was not. -/
theorem moderation_is_inert (h0 : Idle init) (hnone : init.db.committed.reports = [])
    (h : Run (sem coll) anyStep (start dep who req init) tr cfg) :
    (cfg.state.db.committed.reports = [] ∧ Inert init.db.committed cfg.state.db.committed) ∧
      ∀ c, (req c).onReport → ∀ o, (cfg.pool c).outcome = some o → ∃ e, o = .error e := by
  have hcompat : Compatible (sem coll) (fun (_ : C) _ _ => True)
      (fun (_ : C) _ e _ => e.op.Harmless) :=
    ⟨fun _ _ => trivial, fun _ _ _ _ _ _ => trivial, fun _ _ => trivial, fun _ _ _ _ => trivial⟩
  have hpool : ∀ c, ((start dep who req init).pool c).Among (sem coll) c (fun _ _ => True)
      (fun s _ => Unreported init.db.committed s) (fun _ e _ => e.op.Harmless)
      (fun o _ => (req c).onReport → Fails o) init := fun c => serve_calm dep (who c) (req c)
  obtain ⟨hguarded, hI⟩ := Run.among_inv (I := Unreported init.db.committed) hcompat
    (fun _ _ _ hI => hI) (unreported_of_idle h0 hnone)
    (fun _ _ _ _ _ hI hstep hop => hI.step hop (effect_of_step hstep))
    (fun _ _ hI henv => hI.others henv) hpool h
  refine ⟨⟨hI.reports, hI.inert⟩, fun c hreq o ho => ?_⟩
  obtain ⟨_, hfails, _⟩ := hguarded.among_outcome hcompat (fun _ _ _ _ hI => hI) hpool ho
  cases o with
  | error e => exact ⟨e, rfl⟩
  | ok a => exact absurd (hfails hreq) nofun

end Runs

/-! ## A report of spam -/

section Samples

open Infrastructure (binaryCollation)

/-- The board with the post and no report. -/
def unreportedBoard : State Bool :=
  { board with
    db := { board.db with committed := { board.db.committed with reports := [] } } }

def spamReport : ReportCreateRequest := ⟨.post, some 3, none, none, "SPAM", none⟩

/-- The moderator reports the post, and decides the report. -/
def reportAndBan : Bool → Request
  | false => .addReport spamReport
  | true => .processReport 10 ban

private theorem report_run : ∃ tr cfg, Run (sem binaryCollation) anyStep
    (start sampleDeployment (fun _ => 9) reportAndBan unreportedBoard) tr cfg ∧
      (cfg.pool false).outcome = some (.error .integrityError) ∧
      (cfg.pool true).outcome = some (.error (.notFound "신고 내역을 찾을 수 없습니다.")) := by
  have hchain : ∃ s, Chain (sem binaryCollation) unreportedBoard
      (([⟨.select (.user 9), .ok [moderator]⟩, ⟨.select (.anyPost 3), .ok [badPost]⟩,
          ⟨.insert (.report (some 9) .post (some 3) (some "spam") (some "buy") none none 5 "SPAM"
            none), .error .integrityError⟩, ⟨.rollback, .ok ()⟩, ⟨.rollback, .ok ()⟩,
          ⟨.close, .ok ()⟩] : List BoardEvent).map (.call false) ++
        ([⟨.select (.user 9), .ok [moderator]⟩, ⟨.select (.report 10), .ok []⟩,
          ⟨.rollback, .ok ()⟩, ⟨.close, .ok ()⟩] : List BoardEvent).map (.call true)) s :=
    ⟨_, .append
      (.call ⟨rfl, rfl⟩ (.call ⟨rfl, rfl⟩ (.call ⟨rfl, rfl⟩ (.call rfl (.call rfl
        (.call rfl .nil))))))
      (.call ⟨rfl, rfl⟩ (.call ⟨rfl, rfl⟩ (.call rfl (.call rfl .nil))))⟩
  obtain ⟨s, hchain⟩ := hchain
  have hrun := Run.of_chain hchain
    (p := fun c => serve sampleDeployment 9 (reportAndBan c))
    (q := fun c => .raise (if c then .notFound "신고 내역을 찾을 수 없습니다."
      else .integrityError)) ?_
  · exact ⟨_, _, hrun, rfl, rfl⟩
  · intro c
    cases c with
    | false =>
        simp only [own_append, own_map_self, own_map_ne Bool.false_ne_true.symm,
          List.append_nil]
        exact .cons (.cons (.cons (.cons (.cons (.cons .nil)))))
    | true =>
        simp only [own_append, own_map_self, own_map_ne Bool.false_ne_true, List.nil_append]
        exact .cons (.cons (.cons (.cons .nil)))

theorem moderation_is_inert_sample : ∃ tr cfg,
    Run (sem binaryCollation) anyStep
        (start sampleDeployment (fun _ => 9) reportAndBan unreportedBoard) tr cfg ∧
      (cfg.pool false).outcome = some (.error .integrityError) ∧
      (cfg.state.db.committed.reports = [] ∧
        Inert unreportedBoard.db.committed cfg.state.db.committed) ∧
      ∀ c, (reportAndBan c).onReport → ∀ o, (cfg.pool c).outcome = some o →
        ∃ e, o = .error e := by
  obtain ⟨tr, cfg, hrun, hout, _⟩ := report_run
  exact ⟨tr, cfg, hrun, hout, moderation_is_inert (fun _ => rfl) rfl hrun⟩

end Samples

end GreenCommunity.Board
