import GreenCommunity.Board.Summary
import Mathlib.Data.List.Forall2

/-!
# Transactions of concurrent requests

In a run of many requests the open transaction of a caller is what its summary says:
its writes are those it has issued, each with its justification, and what it has read
before them is in its snapshot.
-/

namespace GreenCommunity.Board

open GreenCommunity.Base
open GreenCommunity.Infrastructure (Collation)

variable {C : Type} [DecidableEq C] {coll : Collation}

/-! ## Steps -/

/-- The write that an event has issued. -/
def Wrote (e : BoardEvent) (w : Write) : Prop :=
  match e with
  | ⟨.insert new, .ok n⟩ => ∃ createdAt row, new.row n createdAt = some row ∧ w = .insert row
  | ⟨.update change, .ok _⟩ => w = .update change
  | _ => False

/-- What a step of the caller `c` does to the database and to its summary. -/
inductive Effect (coll : Collation) (c : C) (s : State C) (e : BoardEvent) (s' : State C) :
    Prop where
  | quiet (hdb : s'.db = s.db) (hids : s'.nextId = s.nextId)
      (hnext : ∀ x : Summary, x.next e = x)
  | read (hdb : s'.db = s.db.read c) (hids : s'.nextId = s.nextId)
      (hnext : ∀ x : Summary, x.next e = x)
  | select (query : Query) (rows : query.Rows) (he : e = ⟨.select query, .ok rows⟩)
      (hrows : query.answers coll (s.db.view apply c) rows) (hdb : s'.db = s.db.read c)
      (hids : s'.nextId = s.nextId)
  | insert (new : NewRow) (n : Int) (createdAt : Nat) (row : Row)
      (he : e = ⟨.insert new, .ok n⟩) (hn : n = s.nextId new.table)
      (hrow : new.row n createdAt = some row) (hdb : s'.db = s.db.write c (.insert row))
      (hids : s'.nextId = Function.update s.nextId new.table (n + 1))
  | update (change : Change) (he : e = ⟨.update change, .ok ()⟩)
      (hdb : s'.db = s.db.write c (.update change)) (hids : s'.nextId = s.nextId)
  | commit (he : e = ⟨.commit, .ok ()⟩) (hdb : s'.db = s.db.commit apply c)
      (hids : s'.nextId = s.nextId)
  | rollback (hdb : s'.db = s.db.rollback c) (hids : s'.nextId = s.nextId)
      (hnext : ∀ x : Summary, x.next e = { x with reads := [], writes := [] })

/-- Everything a step can do. -/
theorem effect_of_step {c : C} {s s' : State C} {op : Op} {r : Reply op}
    (h : (sem coll).step c s op r s') : Effect coll c s ⟨op, r⟩ s' := by
  cases r with
  | error e =>
      obtain ⟨_, rfl⟩ := h
      exact .quiet rfl rfl fun x => by cases op <;> rfl
  | ok r =>
      cases op with
      | select query =>
          obtain ⟨hrows, rfl⟩ := h
          exact .select query r rfl hrows rfl rfl
      | insert new =>
          obtain ⟨hn, createdAt, row, hrow, _, rfl⟩ := h
          exact .insert new r createdAt row rfl hn hrow rfl rfl
      | update change =>
          obtain ⟨_, _, rfl⟩ := h
          exact .update change rfl rfl rfl
      | countLikes | getLike =>
          obtain rfl := h
          exact .read rfl rfl fun _ => rfl
      | setLike | now | presign =>
          obtain rfl := h
          exact .quiet rfl rfl fun _ => rfl
      | uuid4 =>
          obtain ⟨_, _, rfl⟩ := h
          exact .quiet rfl rfl fun _ => rfl
      | upload =>
          obtain rfl := h
          exact .quiet rfl rfl fun _ => rfl
      | commit =>
          obtain rfl := h
          exact .commit rfl rfl rfl
      | rollback | close =>
          obtain rfl := h
          exact .rollback rfl rfl fun _ => rfl

/-! ## Runs -/

/-- The requests of the callers, each made with the access token of a user, before any
of them has begun. -/
def start (dep : Deployment) (who : C → Int) (req : C → Request) (init : State C) :
    Config C Op Reply AppError Unit (State C) :=
  ⟨init, fun c => serve dep (who c) (req c)⟩

def summary (c : C) (tr : List (Label C Op Reply)) : Summary :=
  (own c tr).foldl Summary.next .empty

theorem summary_env (c : C) (tr : List (Label C Op Reply)) :
    summary c (tr ++ [.env]) = summary c tr := by
  simp [summary]

theorem summary_self (c : C) (tr : List (Label C Op Reply)) (e : BoardEvent) :
    summary c (tr ++ [.call c e]) = (summary c tr).next e := by
  simp [summary]

theorem summary_ne {c d : C} (h : d ≠ c) (tr : List (Label C Op Reply)) (e : BoardEvent) :
    summary c (tr ++ [.call d e]) = summary c tr := by
  simp [summary, own_call_ne h]

/-- Rows are never lost. -/
structure Tables.Before (t t' : Tables) : Prop where
  posts : Kept Post.postId t.posts t'.posts
  comments : Kept Comment.commentId t.comments t'.comments
  reports : Kept Report.reportId t.reports t'.reports

theorem Tables.Before.refl (t : Tables) : t.Before t := ⟨.refl _, .refl _, .refl _⟩

/-- The users play no part. -/
theorem Tables.Before.users (t : Tables) (users : List User) : t.Before { t with users } :=
  ⟨.refl _, .refl _, .refl _⟩

theorem Tables.Before.trans {t t' t'' : Tables} (h : t.Before t') (h' : t'.Before t'') :
    t.Before t'' :=
  ⟨h.posts.trans h'.posts, h.comments.trans h'.comments, h.reports.trans h'.reports⟩

theorem Tables.Before.apply (t : Tables) (w : Write) : t.Before (apply t w) := by
  cases w with
  | insert new =>
      cases new with
      | post => exact ⟨.append _ _, .refl _, .refl _⟩
      | comment => exact ⟨.refl _, .append _ _, .refl _⟩
      | report => exact ⟨.refl _, .refl _, .append _ _⟩
      | _ => exact ⟨.refl _, .refl _, .refl _⟩
  | update change =>
      cases change with
      | post | views => exact ⟨.updateAt fun _ => rfl, .refl _, .refl _⟩
      | comment => exact ⟨.refl _, .updateAt fun _ => rfl, .refl _⟩
      | report => exact ⟨.refl _, .refl _, .updateAt fun _ => rfl⟩

theorem Tables.Before.foldl (t : Tables) (ws : List Write) :
    t.Before (ws.foldl Board.apply t) := by
  induction ws generalizing t with
  | nil => exact .refl t
  | cons w ws ih => exact (Tables.Before.apply t w).trans (ih _)

/-- The transaction of a session is what the summary `x` says. -/
structure Explains (coll : Collation) (committed : Tables) (x : Summary)
    (session : Session Tables Write) : Prop where
  writes : List.Forall₂ Wrote x.writes session.writes
  justified : ∀ ws e ws', x.writes = ws ++ e :: ws' → Justified { x with writes := ws } e.op
  reads : ∀ query rows, x.Read query rows →
    ∃ t, session.snapshot = some t ∧ query.answers coll t rows
  before : ∀ t, session.snapshot = some t → t.Before committed

def Explained (coll : Collation) (tr : List (Label C Op Reply)) (s : State C) : Prop :=
  ∀ c, Explains coll s.db.committed (summary c tr) (s.db.session c)

section Explains

variable {committed : Tables} {x x' : Summary} {session session' : Session Tables Write}

/-- A fresh transaction. -/
theorem explains_idle (h₁ : x.reads = []) (h₂ : x.writes = []) :
    Explains coll committed x .idle where
  writes := by rw [h₂]; exact .nil
  justified ws e ws' h := by rw [h₂] at h; simp at h
  reads query rows h := by rw [Summary.Read, h₁] at h; cases h
  before t h := by cases h

theorem Explains.mono {committed' : Tables} (h : Explains coll committed x session)
    (hc : committed.Before committed') : Explains coll committed' x session :=
  ⟨h.writes, h.justified, h.reads, fun t ht => (h.before t ht).trans hc⟩

/-- A justification stands when the user becomes known. -/
theorem justified_user {op : Op} {user : Option User} (h : Justified x op) :
    Justified { x with user := x.user.or user } op := by
  have hor : ∀ {u}, x.user = some u → x.user.or user = some u := fun hu => by rw [hu]; rfl
  cases op with
  | insert new =>
      cases new with
      | post =>
          obtain ⟨u, hu, h⟩ := h
          exact ⟨u, hor hu, h⟩
      | postImage =>
          obtain ⟨u, post, hu, h⟩ := h
          exact ⟨u, post, hor hu, h⟩
      | comment =>
          obtain ⟨⟨u, hu, h⟩, hparent⟩ := h
          exact ⟨⟨u, hor hu, h⟩, hparent⟩
      | report =>
          obtain ⟨u, hu, h⟩ := h
          exact ⟨u, hor hu, h⟩
      | userSanction => exact h
  | update change =>
      cases change with
      | post =>
          refine ⟨h.1, h.2.imp_right ?_⟩
          rintro ⟨hset, u, id, post, hu, h⟩
          exact ⟨hset, u, id, post, hor hu, h⟩
      | comment =>
          obtain ⟨u, id, comment, hu, h⟩ := h
          exact ⟨u, id, comment, hor hu, h⟩
      | views | report => exact h
  | _ => trivial

/-- The session after a read. -/
def Session.opened (session : Session Tables Write) (committed : Tables) :
    Session Tables Write :=
  { session with snapshot := some (session.snapshot.getD committed) }

theorem Explains.opened (h : Explains coll committed x session) :
    Explains coll committed x (Session.opened session committed) where
  writes := h.writes
  justified := h.justified
  reads query rows hr := by
    obtain ⟨t, ht, hrows⟩ := h.reads query rows hr
    exact ⟨t, by simp [Session.opened, ht], hrows⟩
  before t ht := by
    cases hs : session.snapshot with
    | none =>
        simp only [Session.opened, hs, Option.getD_none, Option.some.injEq] at ht
        subst ht
        exact .refl _
    | some t' =>
        simp only [Session.opened, hs, Option.getD_some, Option.some.injEq] at ht
        subst ht
        exact h.before t' hs

/-- The session after a query: before the first write its rows are those of the
snapshot. -/
theorem Explains.select (h : Explains coll committed x session) {query : Query}
    {rows : query.Rows} (hrows : query.answers coll
      (session.writes.foldl apply (session.snapshot.getD committed)) rows) :
    Explains coll committed (x.next ⟨.select query, .ok rows⟩)
      (Session.opened session committed) := by
  have hopened := h.opened
  refine ⟨h.writes, fun ws e ws' hw => ?_, fun query' rows' hr => ?_, hopened.before⟩
  · have hold := h.justified ws e ws' hw
    by_cases hempty : x.writes = []
    · have hnil : x.writes = ws ++ e :: ws' := hw
      rw [hempty] at hnil
      simp at hnil
    · have hreads : (x.next ⟨.select query, .ok rows⟩).reads = x.reads := by
        simp [Summary.next, hempty]
      rw [hreads]
      exact justified_user hold
  · by_cases hempty : x.writes = []
    · have hmem : (⟨.select query', .ok rows'⟩ : BoardEvent) ∈
          x.reads ++ [⟨.select query, .ok rows⟩] := by
        simpa [Summary.Read, Summary.next, hempty] using hr
      rcases List.mem_append.mp hmem with hold | hnew
      · exact hopened.reads query' rows' hold
      · cases List.mem_singleton.mp hnew
        have hnil : session.writes = [] := by
          have hforall := h.writes
          rw [hempty] at hforall
          exact List.forall₂_nil_left_iff.mp hforall
        rw [hnil] at hrows
        exact ⟨_, rfl, hrows⟩
    · have hreads : (x.next ⟨.select query, .ok rows⟩).reads = x.reads := by
        simp [Summary.next, hempty]
      rw [Summary.Read, hreads] at hr
      exact hopened.reads query' rows' hr

/-- The session after a write. -/
theorem Explains.write (h : Explains coll committed x session) {e : BoardEvent} {w : Write}
    (hw : Wrote e w) (hj : Justified x e.op)
    (hnext : x.next e = { x with writes := x.writes ++ [e] }) :
    Explains coll committed (x.next e)
      { session with writes := session.writes ++ [w] } := by
  rw [hnext]
  refine ⟨List.rel_append h.writes (.cons hw .nil), fun ws e' ws' heq => ?_, h.reads, h.before⟩
  rcases List.eq_nil_or_concat ws' with rfl | ⟨ws'', e'', rfl⟩
  · obtain ⟨rfl, hlast⟩ := List.append_inj' heq rfl
    cases hlast
    exact hj
  · rw [List.concat_eq_append, ← List.cons_append, ← List.append_assoc] at heq
    obtain ⟨hinit, _⟩ := List.append_inj' heq rfl
    exact h.justified ws e' ws'' hinit

variable {coll : Collation}

theorem Explains.mem_reports (h : Explains coll committed x session) {id : Int} {rep : Report}
    (hrep : x.Read (.report id) [rep]) :
    ∃ t, session.snapshot = some t ∧ rep ∈ t.reports ∧ rep.reportId = id := by
  obtain ⟨t, hsnap, hrows⟩ := h.reads _ _ hrep
  have hin : rep ∈ t.reports.filter fun row => row.reportId == id := by
    rw [← show [rep] = _ from hrows]
    exact List.mem_singleton.mpr rfl
  obtain ⟨hmem, hid⟩ := List.mem_filter.mp hin
  exact ⟨t, hsnap, hmem, by simpa using hid⟩

/-- A pending report is among the reports of its target that its transaction has read. -/
theorem Explains.mem_batch (h : Explains coll committed x session) {id : Int} {rep : Report}
    {target : Target} {batch : List Report} (hrep : x.Read (.report id) [rep])
    (hpending : rep.reportStatus = .pending) (htarget : rep.target = some target)
    (hbatch : x.Read (.pendingOf target) batch) : rep ∈ batch ∧ rep.reportId = id := by
  -- both were read in the same snapshot
  obtain ⟨t, hsnap, hmem, hid⟩ := h.mem_reports hrep
  obtain ⟨t', hsnap', hperm⟩ := h.reads _ _ hbatch
  cases hsnap.symm.trans hsnap'
  refine ⟨(show batch.Perm _ from hperm).mem_iff.mpr ?_, hid⟩
  simp [pendingRows, hmem, hpending, includes_iff.mpr htarget]

end Explains

/-- No transaction is open. -/
def Idle (init : State C) : Prop := ∀ c, init.db.session c = .idle

section Runs

variable {dep : Deployment} {who : C → Int} {req : C → Request} {init : State C}
  {tr : List (Label C Op Reply)} {cfg : Config C Op Reply AppError Unit (State C)}

/-- Every event of a run has its justification. -/
theorem justified_step {ok : Guard C Op Reply AppError Unit (State C)} {c : C} {e : BoardEvent}
    {cfg' : Config C Op Reply AppError Unit (State C)}
    (h : Run (sem coll) ok (start dep who req init) tr cfg)
    (hl : Step (sem coll) cfg (.call c e) cfg') : Justified (summary c tr) e.op :=
  h.track_step (fun c => serve_follows dep (who c) (req c)) hl

/-- The step of one caller, seen from its own session. -/
theorem explains_step {c : C} {e : BoardEvent} {s s' : State C} {x : Summary}
    (h : Explains coll s.db.committed x (s.db.session c)) (hj : Justified x e.op)
    (heff : Effect coll c s e s') :
    Explains coll s'.db.committed (x.next e) (s'.db.session c) := by
  have hread : s'.db = s.db.read c →
      s'.db.session c = Session.opened (s.db.session c) s.db.committed ∧
        s'.db.committed = s.db.committed := fun hdb => by
    rw [hdb]
    exact ⟨by simp [Db.read, Session.opened], rfl⟩
  have hwrite : ∀ w, s'.db = s.db.write c w →
      s'.db.session c = { s.db.session c with writes := (s.db.session c).writes ++ [w] } ∧
        s'.db.committed = s.db.committed := fun w hdb => by
    rw [hdb]
    exact ⟨by simp [Db.write], rfl⟩
  cases heff with
  | quiet hdb _ hnext =>
      rw [hnext, hdb]
      exact h
  | read hdb _ hnext =>
      rw [hnext, (hread hdb).1, (hread hdb).2]
      exact h.opened
  | select query rows he hrows hdb _ =>
      rw [(hread hdb).1, (hread hdb).2, he]
      exact h.select hrows
  | insert new n createdAt row he _ hrow hdb _ =>
      rw [(hwrite _ hdb).1, (hwrite _ hdb).2]
      subst he
      exact h.write ⟨createdAt, row, hrow, rfl⟩ hj rfl
  | update change he hdb _ =>
      rw [(hwrite _ hdb).1, (hwrite _ hdb).2]
      subst he
      exact h.write rfl hj rfl
  | commit he hdb _ =>
      rw [he, hdb, Db.session_commit]
      exact explains_idle rfl rfl
  | rollback hdb _ hnext =>
      rw [hnext, hdb, Db.session_rollback]
      exact explains_idle rfl rfl

/-- No step loses a row. -/
theorem before_step {c : C} {e : BoardEvent} {s s' : State C} (heff : Effect coll c s e s') :
    s.db.committed.Before s'.db.committed := by
  have hsame : s'.db.committed = s.db.committed → s.db.committed.Before s'.db.committed :=
    fun heq => heq ▸ .refl _
  cases heff with
  | quiet hdb => exact hsame (by rw [hdb])
  | read hdb | select _ _ _ _ hdb => exact hsame (by rw [hdb]; rfl)
  | insert _ _ _ _ _ _ _ hdb | update _ _ hdb => exact hsame (by rw [hdb]; rfl)
  | commit _ hdb =>
      rw [hdb]
      exact Tables.Before.foldl _ _
  | rollback hdb => exact hsame (by rw [hdb]; rfl)

/-- The other sessions do not notice. -/
theorem others_step {c d : C} {e : BoardEvent} {s s' : State C} (hne : d ≠ c)
    (heff : Effect coll c s e s') : s'.db.session d = s.db.session d := by
  cases heff with
  | quiet hdb => rw [hdb]
  | read hdb | select _ _ _ _ hdb => rw [hdb, Db.session_read_ne hne]
  | insert _ _ _ _ _ _ _ hdb | update _ _ hdb => rw [hdb, Db.session_write_ne hne]
  | commit _ hdb => rw [hdb, Db.session_commit_ne hne]
  | rollback hdb => rw [hdb, Db.session_rollback_ne hne]

theorem before_label {l : Label C Op Reply} {cfg' : Config C Op Reply AppError Unit (State C)}
    (hl : Step (sem coll) cfg l cfg') :
    cfg.state.db.committed.Before cfg'.state.db.committed := by
  cases hl with
  | env henv =>
      obtain ⟨users, rfl⟩ := henv
      exact .users _ users
  | call _ hstep => exact before_step (effect_of_step hstep)

theorem before_run (h : Run (sem coll) anyStep (start dep who req init) tr cfg) :
    init.db.committed.Before cfg.state.db.committed :=
  Run.inv (fun _ cfg => init.db.committed.Before cfg.state.db.committed) (.refl _)
    (fun _ _ _ _ _ hbefore hl _ => hbefore.trans (before_label hl)) h

theorem explained_run (h0 : Idle init)
    (h : Run (sem coll) anyStep (start dep who req init) tr cfg) :
    Explained coll tr cfg.state := by
  refine Run.inv (fun tr cfg => Explained coll tr cfg.state) ?_ ?_ h
  · intro c
    rw [show (start dep who req init).state = init from rfl, h0 c]
    exact explains_idle rfl rfl
  intro tr cfg l cfg' hrun hexp hl _ d
  cases hl with
  | env henv =>
      obtain ⟨users, rfl⟩ := henv
      rw [summary_env]
      exact (hexp d).mono (.users _ users)
  | @call c op k r s' hpool hstep =>
      have heff := effect_of_step hstep
      by_cases hd : d = c
      · subst hd
        rw [summary_self]
        exact explains_step (hexp d) (justified_step hrun (.call hpool hstep)) heff
      · rw [summary_ne (Ne.symm hd)]
        show Explains coll s'.db.committed _ (s'.db.session d)
        rw [others_step hd heff]
        exact (hexp d).mono (before_step heff)

/-! ## Commits -/

/-- A guard that looks at the commits only: what has happened, who commits, and the
state before. -/
def AtCommits (ok : List (Label C Op Reply) → C → State C → Prop) :
    Guard C Op Reply AppError Unit (State C) :=
  fun tr cfg l => ∀ c, l = .call c ⟨.commit, .ok ()⟩ → ok tr c cfg.state

/-- The committed tables change at commits only, except for the users. -/
theorem committed_step {cfg' : Config C Op Reply AppError Unit (State C)}
    {l : Label C Op Reply} (hl : Step (sem coll) cfg l cfg') :
    (∃ c, l = .call c ⟨.commit, .ok ()⟩ ∧
        cfg'.state.db.committed = cfg.state.db.current apply c) ∨
      (∀ c, l ≠ .call c ⟨.commit, .ok ()⟩) ∧
        ∃ users, cfg'.state.db.committed = { cfg.state.db.committed with users } := by
  cases hl with
  | env henv =>
      obtain ⟨users, rfl⟩ := henv
      exact Or.inr ⟨nofun, users, rfl⟩
  | @call c op k r s' hpool hstep =>
      have hquiet : (⟨op, r⟩ : BoardEvent) ≠ ⟨.commit, .ok ()⟩ →
          s'.db.committed = cfg.state.db.committed →
          (∀ d, Label.call c ⟨op, r⟩ ≠ .call d (⟨.commit, .ok ()⟩ : BoardEvent)) ∧
            ∃ users, s'.db.committed = { cfg.state.db.committed with users } := by
        intro hne hdb
        refine ⟨fun d h => hne ?_, _, hdb⟩
        injection h
      cases r with
      | error e =>
          obtain ⟨_, rfl⟩ := hstep
          exact Or.inr (hquiet (fun h => by cases h) rfl)
      | ok r =>
          cases op with
          | commit =>
              obtain rfl := hstep
              exact Or.inl ⟨c, rfl, rfl⟩
          | select =>
              obtain ⟨_, rfl⟩ := hstep
              exact Or.inr (hquiet nofun rfl)
          | insert =>
              obtain ⟨_, _, _, _, _, rfl⟩ := hstep
              exact Or.inr (hquiet nofun rfl)
          | update =>
              obtain ⟨_, _, rfl⟩ := hstep
              exact Or.inr (hquiet nofun rfl)
          | uuid4 =>
              obtain ⟨_, _, rfl⟩ := hstep
              exact Or.inr (hquiet nofun rfl)
          | _ =>
              obtain rfl := hstep
              exact Or.inr (hquiet nofun rfl)

/-- Two conditions on the commits of a run, one of which keeps an invariant of the
committed tables under which they agree. -/
theorem commits_iff {P Q : List (Label C Op Reply) → C → State C → Prop} {I : Tables → Prop}
    (hI : ∀ t users, I t → I { t with users }) (h0 : I init.db.committed)
    (hcommit : ∀ tr cfg c, Run (sem coll) anyStep (start dep who req init) tr cfg →
      I cfg.state.db.committed →
        (P tr c cfg.state ↔ Q tr c cfg.state) ∧
          (P tr c cfg.state → I (cfg.state.db.current apply c))) :
    Run (sem coll) (AtCommits P) (start dep who req init) tr cfg ↔
      Run (sem coll) (AtCommits Q) (start dep who req init) tr cfg := by
  refine Run.guard_iff (fun _ cfg => I cfg.state.db.committed) h0 ?_
  intro tr cfg l cfg' hrun hinv hl
  refine ⟨forall_congr' fun c => imp_congr_right fun _ => (hcommit tr cfg c hrun hinv).1,
    fun hok => ?_⟩
  rcases committed_step hl with ⟨c, hc, hdb⟩ | ⟨_, users, hdb⟩
  · rw [hdb]
    exact (hcommit tr cfg c hrun hinv).2 (hok c hc)
  · rw [hdb]
    exact hI _ users hinv

/-- A property of the tables that every commit keeps, and a relation of older tables to
newer ones, in every reachable state. -/
theorem follows_run {I : Tables → Prop} {R : Tables → Tables → Prop} (hrefl : ∀ t, R t t)
    (htrans : ∀ {t t' t''}, R t t' → R t' t'' → R t t'')
    (husers : ∀ t users, I t → I { t with users } ∧ R t { t with users })
    (h0 : Idle init) (hI : I init.db.committed)
    (hcommit : ∀ tr cfg c, Run (sem coll) anyStep (start dep who req init) tr cfg →
      cfg.state.db.Follows I R →
        I (cfg.state.db.current apply c) ∧
          R cfg.state.db.committed (cfg.state.db.current apply c))
    (h : Run (sem coll) anyStep (start dep who req init) tr cfg) :
    cfg.state.db.Follows I R := by
  have hstart : init.db.Follows I R := by
    refine ⟨hI, fun c t ht => ?_⟩
    rw [h0 c] at ht
    cases ht
  refine Run.inv (fun _ cfg => cfg.state.db.Follows I R) hstart ?_ h
  intro tr cfg l cfg' hrun hfollows hl _
  cases hl with
  | env henv =>
      obtain ⟨users, rfl⟩ := henv
      obtain ⟨hIusers, hRusers⟩ := husers _ users hfollows.committed
      exact ⟨hIusers, fun c t ht => ⟨(hfollows.snapshot c t ht).1,
        htrans (hfollows.snapshot c t ht).2 hRusers⟩⟩
  | @call c op k r s' hpool hstep =>
      show s'.db.Follows I R
      cases effect_of_step hstep with
      | quiet hdb => rwa [hdb]
      | read hdb | select _ _ _ _ hdb =>
          rw [hdb]
          exact hfollows.read hrefl
      | insert _ _ _ _ _ _ _ hdb | update _ _ hdb =>
          rw [hdb]
          exact hfollows.write
      | commit _ hdb =>
          obtain ⟨hIc, hRc⟩ := hcommit tr cfg c hrun hfollows
          rw [hdb]
          exact hfollows.commit htrans hIc hRc
      | rollback hdb =>
          rw [hdb]
          exact hfollows.rollback

end Runs

end GreenCommunity.Board
