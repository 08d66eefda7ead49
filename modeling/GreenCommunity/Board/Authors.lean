import GreenCommunity.Board.Evolution

/-!
# Authors

A request is made on behalf of the user of its access token, whom it looks up before
anything else.  The author of a post or a comment never changes, and a new row has a
new number, so a number has one author in all that any transaction sees.
-/

namespace GreenCommunity.Board

open GreenCommunity.Base
open GreenCommunity.Base.Prog

/-! ## Who makes a request -/

/-- What the first event has looked up, if there was one. -/
def lookup : Option (Option User) → BoardEvent → Option (Option User)
  | none, e => some (Summary.lookedUp e)
  | some found, _ => some found

/-- The lookup comes first, and without a user there are no more queries. -/
def LooksUp (userId : Int) : Option (Option User) → BoardEvent → Prop
  | none, e => e.op = .select (.user userId)
  | some none, e => ∀ query, e.op ≠ .select query
  | some (some _), _ => True

/-- A request that has raised in its session. -/
private theorem every_raised {P : Op → Prop} (hrollback : P .rollback) (hclose : P .close)
    (e : AppError) : (inSession (.raise e : BoardM Unit)).Every P := by
  refine ⟨hrollback, fun r => ?_⟩
  cases r with
  | error => exact ⟨hclose, fun r => by cases r <;> trivial⟩
  | ok => exact ⟨hclose, fun r => by cases r <;> trivial⟩

theorem serve_looksUp (dep : Deployment) (userId : Int) (req : Request) :
    (serve dep userId req).Track lookup (LooksUp userId) (fun _ _ => True) none := by
  have hraised : ∀ e, (inSession (.raise e : BoardM Unit)).Track lookup (LooksUp userId)
      (fun _ _ => True) (some none) := fun e =>
    Track.imp (fun _ _ _ => trivial) ((every_raised (P := fun op => ∀ query, op ≠ .select query)
      nofun nofun e).track (K := (· = some none))
        (fun _ _ _ hop hx => by subst hx; exact ⟨hop, rfl⟩) rfl)
  rintro (e | _ | ⟨user, _ | ⟨_, rest⟩⟩)
  · exact ⟨rfl, hraised e⟩
  · exact ⟨rfl, hraised _⟩
  · refine ⟨rfl, ?_⟩
    exact Track.imp (fun _ _ _ => trivial) ((every_true _).track (K := (· = some (some user)))
      (fun _ _ _ _ hx => by subst hx; exact ⟨trivial, rfl⟩) rfl)
  · exact ⟨rfl, hraised _⟩

section Performer

variable {C : Type} [DecidableEq C] {coll : Infrastructure.Collation} {dep : Deployment}
  {who : C → Int} {req : C → Request} {init : State C} {tr : List (Label C Op Reply)}
  {cfg : Config C Op Reply AppError Unit (State C)}

/-- The request of `c` has looked up its user and found the row `user`. -/
def Performs (who : C → Int) (tr : List (Label C Op Reply)) (c : C) (user : User) : Prop :=
  (⟨.select (.user (who c)), .ok [user]⟩ : BoardEvent) ∈ own c tr

/-- What the summary and the first event say of the user. -/
private structure Known (who : C → Int) (c : C) (es : List BoardEvent) (x : Summary)
    (found : Option (Option User)) : Prop where
  same : x.user = found.join
  event : ∀ user, found = some (some user) →
    (⟨.select (.user (who c)), .ok [user]⟩ : BoardEvent) ∈ es

omit [DecidableEq C] in
private theorem Known.next {c : C} {es : List BoardEvent} {x : Summary}
    {found : Option (Option User)} {e : BoardEvent} (h : Known who c es x found)
    (he : LooksUp (who c) found e) :
    Known who c (es ++ [e]) (x.next e) (lookup found e) := by
  obtain ⟨op, r⟩ := e
  cases found with
  | none =>
      obtain rfl : op = .select (.user (who c)) := he
      have huser : x.user = none := h.same
      cases r with
      | error e => exact ⟨huser, by simp [lookup, Summary.lookedUp]⟩
      | ok rows =>
          have hsame : (x.next ⟨.select (.user (who c)), .ok rows⟩).user =
              (lookup none ⟨.select (.user (who c)), .ok rows⟩).join := by
            simp [Summary.next, huser, Summary.lookedUp, lookup]
          refine ⟨hsame, ?_⟩
          cases rows with
          | nil => simp [lookup, Summary.lookedUp]
          | cons user rest =>
              cases rest with
              | nil => simp [lookup, Summary.lookedUp]
              | cons _ _ => simp [lookup, Summary.lookedUp]
  | some found =>
      cases found with
      | none =>
          refine ⟨Eq.trans ?_ h.same, by simp [lookup]⟩
          cases op with
          | select query => exact absurd rfl (he query)
          | _ => cases r <;> rfl
      | some user =>
          have huser : x.user = some user := h.same
          refine ⟨?_, fun u hu => List.mem_append_left _ (h.event u hu)⟩
          show (x.next ⟨op, r⟩).user = some user
          cases op <;> cases r <;> simp [Summary.next, huser]

/-- The user of the summary is the one of the access token. -/
theorem performs_of_user
    (h : Run (sem coll) anyStep (start dep who req init) tr cfg) {c : C} {user : User}
    (huser : (summary c tr).user = some user) : Performs who tr c user := by
  have hknown : ∀ c, Known who c (own c tr) (summary c tr) ((own c tr).foldl lookup none) := by
    refine Run.inv (fun tr _ => ∀ c, Known who c (own c tr) (summary c tr)
      ((own c tr).foldl lookup none)) (fun c => ⟨rfl, nofun⟩) ?_ h
    intro tr cfg l cfg' hrun ih hl _ c
    cases l with
    | env => simpa [summary_env] using ih c
    | call d e =>
        by_cases hd : d = c
        · subst hd
          rw [summary_self, own_append, own_call_self, List.foldl_append]
          exact (ih d).next
            (hrun.track_step (fun c => serve_looksUp dep (who c) (req c)) hl)
        · rw [summary_ne hd, own_append, own_call_ne hd, List.append_nil]
          exact ih c
  obtain ⟨hsame, hevent⟩ := hknown c
  refine hevent user ?_
  rw [hsame] at huser
  exact Option.join_eq_some_iff.mp huser

/-- Its row has the number of the access token. -/
theorem userId_of_performs
    (h : Run (sem coll) anyStep (start dep who req init) tr cfg) {c : C} {user : User}
    (hperforms : Performs who tr c user) : user.userId = who c := by
  obtain ⟨tr₁, tr₂, hsplit⟩ := List.append_of_mem (mem_own.mp hperforms)
  obtain ⟨cfg₁, cfg₂, _, hstep, _⟩ := h.split hsplit
  cases hstep with
  | call _ hstep =>
      have hrows : [user] = _ := hstep.1
      have hmem := List.mem_singleton.mpr (rfl : user = user)
      rw [hrows] at hmem
      simpa using (List.mem_filter.mp hmem).2

end Performer

/-! ## Whose a row is -/

/-- The row has a number that has been given out, and the author that `owner` says. -/
def Row.OwnedBy (owner : Table → Int → Int) (nextId : Table → Int) : Row → Prop
  | .post row => row.postId < nextId .posts ∧ row.authorId = owner .posts row.postId
  | .comment row =>
      row.commentId < nextId .comments ∧ row.authorId = owner .comments row.commentId
  | _ => True

structure Tables.OwnedBy (owner : Table → Int → Int) (nextId : Table → Int) (t : Tables) :
    Prop where
  posts : ∀ row ∈ t.posts, (Row.post row).OwnedBy owner nextId
  comments : ∀ row ∈ t.comments, (Row.comment row).OwnedBy owner nextId

/-- All that is committed, in a snapshot or about to be inserted. -/
structure AllOwned {C : Type} (owner : Table → Int → Int) (nextId : Table → Int)
    (db : Db C Tables Write) : Prop where
  committed : db.committed.OwnedBy owner nextId
  snapshot : ∀ c t, (db.session c).snapshot = some t → t.OwnedBy owner nextId
  pending : ∀ c row, .insert row ∈ (db.session c).writes → row.OwnedBy owner nextId

section Owners

variable {owner owner' : Table → Int → Int} {nextId nextId' : Table → Int} {t : Tables}

/-- More numbers have been given out. -/
def Extends (owner : Table → Int → Int) (nextId : Table → Int) (owner' : Table → Int → Int)
    (nextId' : Table → Int) : Prop :=
  ∀ table k, k < nextId table → k < nextId' table ∧ owner' table k = owner table k

theorem Row.OwnedBy.mono (he : Extends owner nextId owner' nextId') {row : Row}
    (h : row.OwnedBy owner nextId) : row.OwnedBy owner' nextId' := by
  cases row with
  | post | comment =>
      obtain ⟨hlt, howner⟩ := h
      obtain ⟨hlt', hsame⟩ := he _ _ hlt
      exact ⟨hlt', howner.trans hsame.symm⟩
  | _ => trivial

theorem Tables.OwnedBy.mono (he : Extends owner nextId owner' nextId')
    (h : t.OwnedBy owner nextId) : t.OwnedBy owner' nextId' :=
  ⟨fun row hrow => (h.posts row hrow).mono he, fun row hrow => (h.comments row hrow).mono he⟩

theorem Tables.OwnedBy.apply {w : Write} (h : t.OwnedBy owner nextId)
    (hw : ∀ row, w = .insert row → row.OwnedBy owner nextId) :
    (apply t w).OwnedBy owner nextId := by
  cases w with
  | insert new =>
      have hnew := hw new rfl
      cases new with
      | post row =>
          refine ⟨fun row' hrow' => ?_, h.comments⟩
          rcases List.mem_append.mp hrow' with hold | hin
          · exact h.posts row' hold
          · rw [List.mem_singleton.mp hin]
            exact hnew
      | comment row =>
          refine ⟨h.posts, fun row' hrow' => ?_⟩
          rcases List.mem_append.mp hrow' with hold | hin
          · exact h.comments row' hold
          · rw [List.mem_singleton.mp hin]
            exact hnew
      | _ => exact ⟨h.posts, h.comments⟩
  | update change =>
      cases change with
      | post | views =>
          refine ⟨fun row hrow => ?_, h.comments⟩
          rcases mem_updateAt.mp hrow with ⟨old, hold, _, rfl⟩ | ⟨hold, _⟩
          · exact h.posts old hold
          · exact h.posts row hold
      | comment =>
          refine ⟨h.posts, fun row hrow => ?_⟩
          rcases mem_updateAt.mp hrow with ⟨old, hold, _, rfl⟩ | ⟨hold, _⟩
          · exact h.comments old hold
          · exact h.comments row hold
      | report => exact ⟨h.posts, h.comments⟩

theorem Tables.OwnedBy.foldl {ws : List Write} (h : t.OwnedBy owner nextId)
    (hws : ∀ row, .insert row ∈ ws → row.OwnedBy owner nextId) :
    (ws.foldl Board.apply t).OwnedBy owner nextId := by
  induction ws generalizing t with
  | nil => exact h
  | cons w ws ih =>
      exact ih (h.apply fun row hw => hws row (hw ▸ List.mem_cons_self))
        fun row hrow => hws row (List.mem_cons_of_mem _ hrow)

variable {C : Type} [DecidableEq C] {db : Db C Tables Write} {c : C}

omit [DecidableEq C] in
theorem AllOwned.mono (he : Extends owner nextId owner' nextId')
    (h : AllOwned owner nextId db) : AllOwned owner' nextId' db where
  committed := h.committed.mono he
  snapshot c t ht := (h.snapshot c t ht).mono he
  pending c row hrow := (h.pending c row hrow).mono he

theorem AllOwned.read (h : AllOwned owner nextId db) : AllOwned owner nextId (db.read c) where
  committed := h.committed
  snapshot d t ht := by
    by_cases hd : d = c
    · subst hd
      simp only [Db.read, Function.update_self, Option.some.injEq] at ht
      subst ht
      cases hs : (db.session d).snapshot with
      | none => exact h.committed
      | some t => exact h.snapshot d t hs
    · rw [Db.session_read_ne hd] at ht
      exact h.snapshot d t ht
  pending d row hrow := by
    rw [Db.writes_read] at hrow
    exact h.pending d row hrow

theorem AllOwned.write {w : Write} (h : AllOwned owner nextId db)
    (hw : ∀ row, w = .insert row → row.OwnedBy owner nextId) :
    AllOwned owner nextId (db.write c w) where
  committed := h.committed
  snapshot d t ht := by
    by_cases hd : d = c
    · subst hd
      simp only [Db.write, Function.update_self] at ht
      exact h.snapshot d t ht
    · rw [Db.session_write_ne hd] at ht
      exact h.snapshot d t ht
  pending d row hrow := by
    by_cases hd : d = c
    · subst hd
      rw [Db.writes_write] at hrow
      rcases List.mem_append.mp hrow with hold | hin
      · exact h.pending d row hold
      · exact hw row (List.mem_singleton.mp hin).symm
    · rw [Db.session_write_ne hd] at hrow
      exact h.pending d row hrow

/-- The session of `c` ends. -/
private theorem AllOwned.ended {t : Tables} (h : AllOwned owner nextId db)
    (ht : t.OwnedBy owner nextId) :
    AllOwned owner nextId { committed := t, session := Function.update db.session c .idle } where
  committed := ht
  snapshot d t ht := by
    by_cases hd : d = c
    · subst hd
      simp [Session.idle] at ht
    · simp only [Function.update_of_ne hd] at ht
      exact h.snapshot d t ht
  pending d row hrow := by
    by_cases hd : d = c
    · subst hd
      simp [Session.idle] at hrow
    · simp only [Function.update_of_ne hd] at hrow
      exact h.pending d row hrow

theorem AllOwned.commit (h : AllOwned owner nextId db) :
    AllOwned owner nextId (db.commit apply c) :=
  h.ended (h.committed.foldl (h.pending c))

theorem AllOwned.rollback (h : AllOwned owner nextId db) :
    AllOwned owner nextId (db.rollback c) :=
  h.ended h.committed

end Owners

/-- The numbers of posts and comments are primary keys, and the counters are above. -/
structure Numbered {C : Type} (s : State C) : Prop where
  posts : (s.db.committed.posts.map Post.postId).Nodup
  comments : (s.db.committed.comments.map Comment.commentId).Nodup
  nextPost : ∀ row ∈ s.db.committed.posts, row.postId < s.nextId .posts
  nextComment : ∀ row ∈ s.db.committed.comments, row.commentId < s.nextId .comments

section Runs

variable {C : Type} [DecidableEq C] {coll : Infrastructure.Collation} {dep : Deployment}
  {who : C → Int} {req : C → Request} {init : State C} {tr : List (Label C Op Reply)}
  {cfg : Config C Op Reply AppError Unit (State C)}

omit [DecidableEq C] in
/-- The authors at the start. -/
private theorem owned_start (h0 : Idle init) (hnum : Numbered init) :
    ∃ owner, AllOwned owner init.nextId init.db := by
  refine ⟨fun table k => match table with
    | .posts => ((rowAt Post.postId k init.db.committed.posts).map Post.authorId).getD 0
    | _ => ((rowAt Comment.commentId k init.db.committed.comments).map
        Comment.authorId).getD 0, ⟨?_, ?_⟩, ?_, ?_⟩
  · intro row hrow
    refine ⟨hnum.nextPost row hrow, ?_⟩
    simp [rowAt_of_nodup hnum.posts hrow]
  · intro row hrow
    refine ⟨hnum.nextComment row hrow, ?_⟩
    simp [rowAt_of_nodup hnum.comments hrow]
  · intro c t ht
    rw [h0 c] at ht
    cases ht
  · intro c row hrow
    rw [h0 c] at hrow
    cases hrow

/-- A new row is its author's. -/
private theorem owned_insert (owner : Table → Int → Int) {nextId : Table → Int} {new : NewRow}
    {createdAt : Nat} {row : Row} (hrow : new.row (nextId new.table) createdAt = some row) :
    ∃ owner', Extends owner nextId owner'
        (Function.update nextId new.table (nextId new.table + 1)) ∧
      row.OwnedBy owner' (Function.update nextId new.table (nextId new.table + 1)) := by
  have hextends : ∀ author : Int, Extends owner nextId
      (fun table k => if table = new.table ∧ k = nextId new.table then author
        else owner table k)
      (Function.update nextId new.table (nextId new.table + 1)) := by
    intro author table k hk
    by_cases htable : table = new.table
    · subst htable
      refine ⟨by simp; omega, if_neg fun h => ?_⟩
      exact absurd h.2 (by omega)
    · exact ⟨by rwa [Function.update_of_ne htable], if_neg fun h => htable h.1⟩
  cases row with
  | post row =>
      obtain ⟨_, _, authorId, rfl, rfl⟩ := row_eq_post hrow
      exact ⟨_, hextends authorId, by simp only [NewRow.table, Function.update_self]; omega,
        by simp [NewRow.table]⟩
  | comment row =>
      obtain ⟨_, _, authorId, _, rfl, rfl⟩ := row_eq_comment hrow
      exact ⟨_, hextends authorId, by simp only [NewRow.table, Function.update_self]; omega,
        by simp [NewRow.table]⟩
  | _ => exact ⟨_, hextends 0, trivial⟩

private theorem owned_step {c : C} {s s' : State C} {e : BoardEvent}
    {owner : Table → Int → Int} (h : AllOwned owner s.nextId s.db)
    (heff : Effect coll c s e s') : ∃ owner, AllOwned owner s'.nextId s'.db := by
  cases heff with
  | quiet hdb hids =>
      rw [hdb, hids]
      exact ⟨owner, h⟩
  | read hdb hids =>
      rw [hdb, hids]
      exact ⟨owner, h.read⟩
  | select _ _ _ _ hdb hids =>
      rw [hdb, hids]
      exact ⟨owner, h.read⟩
  | insert new n createdAt row _ hn hrow hdb hids =>
      subst hn
      obtain ⟨owner', hextends, hnew⟩ := owned_insert owner hrow
      rw [hdb, hids]
      refine ⟨owner', (h.mono hextends).write fun row' heq => ?_⟩
      rw [← Write.insert.inj heq]
      exact hnew
  | update change _ hdb hids =>
      rw [hdb, hids]
      exact ⟨owner, h.write fun row heq => Write.noConfusion heq⟩
  | commit _ hdb hids =>
      rw [hdb, hids]
      exact ⟨owner, h.commit⟩
  | rollback hdb hids =>
      rw [hdb, hids]
      exact ⟨owner, h.rollback⟩

/-- In every state of a run each number has one author. -/
theorem owned_run (h0 : Idle init) (hnum : Numbered init)
    (h : Run (sem coll) anyStep (start dep who req init) tr cfg) :
    ∃ owner, AllOwned owner cfg.state.nextId cfg.state.db := by
  refine Run.inv (fun _ cfg => ∃ owner, AllOwned owner cfg.state.nextId cfg.state.db)
    (owned_start h0 hnum) ?_ h
  rintro tr cfg l cfg' hrun ⟨owner, howned⟩ hl _
  cases hl with
  | env henv =>
      obtain ⟨users, rfl⟩ := henv
      exact ⟨owner, ⟨howned.committed.posts, howned.committed.comments⟩, howned.snapshot,
        howned.pending⟩
  | call hpool hstep => exact owned_step howned (effect_of_step hstep)

end Runs

end GreenCommunity.Board
