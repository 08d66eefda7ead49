import GreenCommunity.Board.Transactions

/-!
# What becomes of a row

A row keeps its number, its place and its author; an update changes some of its columns,
and an insert does not touch it.  So the row with a number after some writes is what
these writes make of it.  The justified writes of a transaction change one post at most.
-/

namespace GreenCommunity.Board

open GreenCommunity.Base

def Tables.postAt (t : Tables) (postId : Int) : Option Post := rowAt Post.postId postId t.posts

def Tables.commentAt (t : Tables) (commentId : Int) : Option Comment :=
  rowAt Comment.commentId commentId t.comments

def Tables.reportAt (t : Tables) (reportId : Int) : Option Report :=
  rowAt Report.reportId reportId t.reports

/-! ## One write -/

def Write.onPost : Write → Post → Post
  | .update (.post postId set), row => if row.postId = postId then row.set set else row
  | .update (.views postId), row =>
      if row.postId = postId then { row with postViewCount := row.postViewCount + 1 } else row
  | _, row => row

def Write.onComment : Write → Comment → Comment
  | .update (.comment commentId set), row =>
      if row.commentId = commentId then row.set set else row
  | _, row => row

def Write.onReport : Write → Report → Report
  | .update (.report reportId set), row =>
      if row.reportId = reportId then row.set set else row
  | _, row => row

section One

variable {t : Tables} {w : Write} {k : Int}

@[simp] theorem onPost_postId (w : Write) (row : Post) : (w.onPost row).postId = row.postId := by
  unfold Write.onPost
  split <;> first | rfl | (split <;> rfl)

@[simp] theorem onReport_reportId (w : Write) (row : Report) :
    (w.onReport row).reportId = row.reportId := by
  unfold Write.onReport
  split <;> first | rfl | (split <;> rfl)

/-- An update of the row with a number, as a function on the row with another. -/
private theorem rowAt_update {R : Type} {key : R → Int} {f : R → R} {rows : List R} {row : R}
    {n : Int} (hf : ∀ row, key (f row) = key row) (h : rowAt key k rows = some row) :
    rowAt key k (updateAt key n f rows) = some (if key row = n then f row else row) := by
  rw [rowAt_updateAt hf, h, (rowAt_eq_some h).2]
  split <;> rfl

/-- An update makes no row. -/
private theorem rowAt_update_none {R : Type} {key : R → Int} {f : R → R} {rows : List R}
    {n : Int} (hf : ∀ row, key (f row) = key row) (h : rowAt key k rows = none) :
    rowAt key k (updateAt key n f rows) = none := by
  rw [rowAt_updateAt hf, h]
  split <;> rfl

theorem postAt_apply {row : Post} (h : t.postAt k = some row) :
    (apply t w).postAt k = some (w.onPost row) := by
  cases w with
  | insert new =>
      cases new with
      | post => exact rowAt_append.trans (by rw [show rowAt _ _ _ = _ from h]; rfl)
      | _ => exact h
  | update change =>
      cases change with
      | post | views => exact rowAt_update (fun _ => rfl) h
      | _ => exact h

theorem commentAt_apply {row : Comment} (h : t.commentAt k = some row) :
    (apply t w).commentAt k = some (w.onComment row) := by
  cases w with
  | insert new =>
      cases new with
      | comment => exact rowAt_append.trans (by rw [show rowAt _ _ _ = _ from h]; rfl)
      | _ => exact h
  | update change =>
      cases change with
      | comment => exact rowAt_update (fun _ => rfl) h
      | _ => exact h

theorem reportAt_apply {row : Report} (h : t.reportAt k = some row) :
    (apply t w).reportAt k = some (w.onReport row) := by
  cases w with
  | insert new =>
      cases new with
      | report => exact rowAt_append.trans (by rw [show rowAt _ _ _ = _ from h]; rfl)
      | _ => exact h
  | update change =>
      cases change with
      | report => exact rowAt_update (fun _ => rfl) h
      | _ => exact h

/-- A post that was not there has been inserted. -/
theorem postAt_apply_none {row : Post} (h : t.postAt k = none)
    (h' : (apply t w).postAt k = some row) : w = .insert (.post row) := by
  cases w with
  | insert new =>
      cases new with
      | post new =>
          have hnew : (rowAt Post.postId k t.posts).or (rowAt Post.postId k [new]) =
            some row := rowAt_append.symm.trans h'
          rw [show rowAt _ _ _ = _ from h, Option.none_or] at hnew
          rw [List.mem_singleton.mp (rowAt_eq_some hnew).1]
      | _ => exact absurd (h'.symm.trans h) (by simp)
  | update change =>
      cases change with
      | post | views =>
          exact absurd (h'.symm.trans (rowAt_update_none (fun _ => rfl) h)) (by simp)
      | _ => exact absurd (h'.symm.trans h) (by simp)

end One

/-! ## Inserted rows -/

section Inserted

variable {new : NewRow} {n : Int} {createdAt : Nat}

private theorem row_report {reporterUserId : Option Int} {type : ContentType}
    {postId commentId : Option Int} {postTitle postContent commentContent : Option String}
    {reportedUserId : Int} {reportCategory : String} {reportReason : Option String} {row : Row}
    (h : (NewRow.report reporterUserId type postId postTitle postContent commentId
      commentContent reportedUserId reportCategory reportReason).row n createdAt = some row) :
    ∃ report, row = .report report := by
  cases postTitle with
  | none => cases h
  | some =>
      cases postContent with
      | none => cases h
      | some =>
          cases commentContent with
          | none => cases h
          | some =>
              simp only [NewRow.row, Option.ite_none_right_eq_some, Option.some.injEq] at h
              exact ⟨_, h.2.symm⟩

theorem row_eq_post {row : Post} (h : new.row n createdAt = some (.post row)) :
    ∃ postTitle postContent authorId, new = .post postTitle postContent authorId ∧
      row = ⟨n, postTitle, postContent, authorId, 0, .published, false, none⟩ := by
  cases new with
  | post postTitle postContent authorId =>
      simp only [NewRow.row, Option.ite_none_right_eq_some, Option.some.injEq,
        Row.post.injEq] at h
      exact ⟨_, _, _, rfl, h.2.symm⟩
  | report => obtain ⟨_, h⟩ := row_report h; cases h
  | postImage | comment | userSanction => simp [NewRow.row] at h

theorem row_eq_postImage {row : PostImage}
    (h : new.row n createdAt = some (.postImage row)) :
    ∃ postId originalPath contentPath thumbnailPath,
      new = .postImage postId originalPath contentPath thumbnailPath ∧
        row = ⟨n, postId, originalPath, contentPath, thumbnailPath⟩ := by
  cases new with
  | postImage =>
      simp only [NewRow.row, Option.ite_none_right_eq_some, Option.some.injEq,
        Row.postImage.injEq] at h
      exact ⟨_, _, _, _, rfl, h.2.symm⟩
  | report => obtain ⟨_, h⟩ := row_report h; cases h
  | post | comment | userSanction => simp [NewRow.row] at h

theorem row_eq_comment {row : Comment} (h : new.row n createdAt = some (.comment row)) :
    ∃ content postId authorId parentCommentId,
      new = .comment content postId authorId parentCommentId ∧
        row = ⟨n, content, postId, authorId, parentCommentId, createdAt, none⟩ := by
  cases new with
  | comment =>
      cases h
      exact ⟨_, _, _, _, rfl, rfl⟩
  | report => obtain ⟨_, h⟩ := row_report h; cases h
  | post | postImage | userSanction => simp [NewRow.row] at h

theorem row_eq_userSanction {row : UserSanction}
    (h : new.row n createdAt = some (.userSanction row)) :
    ∃ reportedUserId type reason reportId expiresAt,
      new = .userSanction reportedUserId type reason reportId expiresAt ∧
        row = ⟨n, reportedUserId, type, reason, reportId, expiresAt⟩ := by
  cases new with
  | userSanction =>
      cases h
      exact ⟨_, _, _, _, _, rfl, rfl⟩
  | report => obtain ⟨_, h⟩ := row_report h; cases h
  | post | postImage | comment => simp [NewRow.row] at h

end Inserted

/-! ## Several writes -/

section Several

variable {t : Tables} {ws : List Write} {k : Int}

theorem postAt_foldl {row : Post} (h : t.postAt k = some row) :
    (ws.foldl apply t).postAt k = some (ws.foldl (fun row w => w.onPost row) row) := by
  induction ws generalizing t row with
  | nil => exact h
  | cons w ws ih => exact ih (postAt_apply h)

theorem commentAt_foldl {row : Comment} (h : t.commentAt k = some row) :
    (ws.foldl apply t).commentAt k = some (ws.foldl (fun row w => w.onComment row) row) := by
  induction ws generalizing t row with
  | nil => exact h
  | cons w ws ih => exact ih (commentAt_apply h)

theorem reportAt_foldl {row : Report} (h : t.reportAt k = some row) :
    (ws.foldl apply t).reportAt k = some (ws.foldl (fun row w => w.onReport row) row) := by
  induction ws generalizing t row with
  | nil => exact h
  | cons w ws ih => exact ih (reportAt_apply h)

/-- A table that is only inserted into gets the rows of the inserts. -/
theorem foldl_inserts {R : Type} {rows : Tables → List R} {new : Write → Option R}
    (h : ∀ t w, rows (apply t w) = rows t ++ (new w).toList) :
    rows (ws.foldl apply t) = rows t ++ ws.filterMap new := by
  induction ws generalizing t with
  | nil => simp
  | cons w ws ih =>
      rw [List.foldl_cons, ih, h]
      cases hnew : new w <;> simp [hnew]

/-- What every write keeps of a row is kept by all of them. -/
theorem foldl_keeps {R : Type} {f : Write → R → R} {P : R → Prop}
    (h : ∀ w ∈ ws, ∀ row, P row → P (f w row)) {row : R} (hrow : P row) :
    P (ws.foldl (fun row w => f w row) row) := by
  induction ws generalizing row with
  | nil => exact hrow
  | cons w ws ih =>
      exact ih (fun w' hw' => h w' (List.mem_cons_of_mem _ hw')) (h w List.mem_cons_self row hrow)

/-- The same of a post, whose number stays. -/
theorem foldl_onPost {P : Post → Prop}
    (h : ∀ w ∈ ws, ∀ row, row.postId = k → P row → P (w.onPost row)) {row : Post}
    (hid : row.postId = k) (hrow : P row) :
    P (ws.foldl (fun row w => w.onPost row) row) :=
  (foldl_keeps (f := Write.onPost) (P := fun row => row.postId = k ∧ P row)
    (fun w hw row ⟨hid, hrow⟩ => ⟨(onPost_postId w row).trans hid, h w hw row hid hrow⟩)
    ⟨hid, hrow⟩).2

/-- A property of the posts with a number that the writes keep, and that an inserted
post has. -/
theorem postAt_foldl_inv {P : Post → Prop} (h0 : ∀ row, t.postAt k = some row → P row)
    (hnew : ∀ row, .insert (.post row) ∈ ws → P row)
    (hkeep : ∀ w ∈ ws, ∀ row, row.postId = k → P row → P (w.onPost row)) {row : Post}
    (h : (ws.foldl apply t).postAt k = some row) : P row := by
  induction ws generalizing t with
  | nil => exact h0 row h
  | cons w ws ih =>
      refine ih (t := apply t w) (fun row' hrow' => ?_)
        (fun row' hrow' => hnew row' (List.mem_cons_of_mem _ hrow'))
        (fun w' hw' => hkeep w' (List.mem_cons_of_mem _ hw')) h
      cases hold : t.postAt k with
      | some old =>
          rw [postAt_apply hold] at hrow'
          cases hrow'
          exact hkeep w List.mem_cons_self old (rowAt_eq_some hold).2 (h0 old hold)
      | none => exact hnew row' (postAt_apply_none hold hrow' ▸ List.mem_cons_self)

end Several

/-! ## The writes of a transaction -/

/-- Of two lists that correspond, an element and its partner. -/
theorem exists_left {A B : Type} {R : A → B → Prop} {l : List A} {l' : List B}
    (h : List.Forall₂ R l l') {b : B} (hb : b ∈ l') : ∃ a ∈ l, R a b := by
  induction h with
  | nil => cases hb
  | cons hab _ ih =>
      rcases List.mem_cons.mp hb with rfl | hb
      · exact ⟨_, List.mem_cons_self, hab⟩
      · obtain ⟨a, ha, hR⟩ := ih hb
        exact ⟨a, List.mem_cons_of_mem _ ha, hR⟩

theorem exists_right {A B : Type} {R : A → B → Prop} {l : List A} {l' : List B}
    (h : List.Forall₂ R l l') {a : A} (ha : a ∈ l) : ∃ b ∈ l', R a b := by
  obtain ⟨b, hb, hR⟩ := exists_left h.flip ha
  exact ⟨b, hb, hR⟩

def Write.setsPost : Write → Bool
  | .update (.post _ _) => true
  | _ => false

section Transaction

variable {coll : Infrastructure.Collation} {committed : Tables} {x : Summary}
  {session : Session Tables Write}

/-- The event behind a write, and what came before it. -/
theorem Explains.split (h : Explains coll committed x session) {us us' : List Write}
    {w : Write} (hw : session.writes = us ++ w :: us') :
    ∃ ws e, List.Forall₂ Wrote ws us ∧ ws ⊆ x.writes ∧ e ∈ x.writes ∧ Wrote e w ∧
      Justified { x with writes := ws } e.op := by
  have hforall := h.writes
  rw [hw] at hforall
  have htake := List.forall₂_take_append _ _ _ hforall
  have hdrop := List.forall₂_drop_append _ _ _ hforall
  obtain ⟨e, ws', hwrote, _, heq⟩ := List.forall₂_cons_right_iff.mp hdrop
  have hsplit : x.writes = x.writes.take us.length ++ e :: ws' := by
    rw [← heq, List.take_append_drop]
  refine ⟨_, e, htake, List.take_subset _ _, ?_, hwrote, h.justified _ e ws' hsplit⟩
  rw [hsplit]
  exact List.mem_append_right _ List.mem_cons_self

theorem Explains.mem (h : Explains coll committed x session) {w : Write}
    (hw : w ∈ session.writes) :
    ∃ ws e, ws ⊆ x.writes ∧ Wrote e w ∧ Justified { x with writes := ws } e.op := by
  obtain ⟨us, us', hsplit⟩ := List.append_of_mem hw
  obtain ⟨ws, e, _, hsub, _, hwrote, hj⟩ := h.split hsplit
  exact ⟨ws, e, hsub, hwrote, hj⟩

/-- An update is written by the event that issues it. -/
theorem event_of_update {e : BoardEvent} {change : Change} (h : Wrote e (.update change)) :
    e = ⟨.update change, .ok ()⟩ := by
  obtain ⟨op, r⟩ := e
  cases op with
  | update change' =>
      cases r with
      | error => exact absurd h id
      | ok => rw [Write.update.inj h]
  | insert =>
      cases r with
      | error => exact absurd h id
      | ok =>
          obtain ⟨_, _, _, h⟩ := h
          cases h
  | _ => cases ‹Reply _› <;> exact absurd h id

/-- An inserted row comes from an event with its columns. -/
theorem event_of_insert {e : BoardEvent} {row : Row} (h : Wrote e (.insert row)) :
    ∃ new n createdAt, e = ⟨.insert new, .ok n⟩ ∧ new.row n createdAt = some row := by
  obtain ⟨op, r⟩ := e
  cases op with
  | insert new =>
      cases r with
      | error => exact absurd h id
      | ok n =>
          obtain ⟨createdAt, _, hrow, ⟨⟩⟩ := h
          exact ⟨new, n, createdAt, rfl, hrow⟩
  | update => cases r <;> cases h
  | _ => cases r <;> exact absurd h id

theorem Explains.updated (h : Explains coll committed x session) {change : Change}
    (hw : .update change ∈ session.writes) :
    ∃ ws, ws ⊆ x.writes ∧ Justified { x with writes := ws } (.update change) := by
  obtain ⟨ws, e, hsub, hwrote, hj⟩ := h.mem hw
  obtain rfl := event_of_update hwrote
  exact ⟨ws, hsub, hj⟩

theorem Explains.inserted (h : Explains coll committed x session) {row : Row}
    (hw : .insert row ∈ session.writes) :
    ∃ ws new n createdAt, ws ⊆ x.writes ∧ new.row n createdAt = some row ∧
      Justified { x with writes := ws } (.insert new) := by
  obtain ⟨ws, e, hsub, hwrote, hj⟩ := h.mem hw
  obtain ⟨new, n, createdAt, rfl, hrow⟩ := event_of_insert hwrote
  exact ⟨ws, new, n, createdAt, hsub, hrow, hj⟩

/-- An update that has been issued is a write of the session. -/
theorem Explains.issued (h : Explains coll committed x session) {change : Change}
    (hup : x.Updated change) : .update change ∈ session.writes := by
  obtain ⟨w, hw, hwrote⟩ := exists_right h.writes hup
  exact (show w = .update change from hwrote) ▸ hw

/-- The updates of a post by a transaction: a hiding, an edit or a deletion. -/
theorem Explains.post (h : Explains coll committed x session) {postId : Int} {set : PostSet}
    (hw : .update (.post postId set) ∈ session.writes) :
    set = hideSet ∨ set.ByOwner ∧ ∃ user id post, x.user = some user ∧
      x.Read (.activePost id) [post] ∧ post.postId = postId ∧ user.Manages post := by
  obtain ⟨_, _, hj⟩ := h.updated hw
  exact hj.2

/-- No two updates of posts in one transaction. -/
theorem Explains.one_post (h : Explains coll committed x session) {us us' : List Write}
    {postId : Int} {set : PostSet}
    (hw : session.writes = us ++ .update (.post postId set) :: us') :
    (∀ w ∈ us, w.setsPost = false) ∧ ∀ w ∈ us', w.setsPost = false := by
  -- an update of a post has none before it
  have hbefore : ∀ us us' id set, session.writes = us ++ .update (.post id set) :: us' →
      ∀ w ∈ us, w.setsPost = false := by
    intro us us' _ _ hw w hmem
    obtain ⟨ws, e, hforall, _, _, hwrote, hj⟩ := h.split hw
    obtain rfl := event_of_update hwrote
    cases w with
    | insert => rfl
    | update change =>
        cases change with
        | post id set' =>
            obtain ⟨e', he', hwrote'⟩ := exists_left hforall hmem
            obtain rfl := event_of_update hwrote'
            exact nomatch hj.1 _ he'
        | _ => rfl
  refine ⟨hbefore us us' postId set hw, fun w hmem => ?_⟩
  cases w with
  | insert => rfl
  | update change =>
      cases change with
      | post id set' =>
          obtain ⟨vs, vs', rfl⟩ := List.append_of_mem hmem
          have hno := hbefore (us ++ .update (.post postId set) :: vs) vs' id set'
            (by rw [hw]; simp) (.update (.post postId set)) (by simp)
          cases hno
      | _ => rfl

/-- Beside an update of a post the transaction has no other. -/
theorem Explains.only_post (h : Explains coll committed x session) {postId : Int}
    {set : PostSet} (hw : .update (.post postId set) ∈ session.writes) :
    ∀ w ∈ session.writes, w = .update (.post postId set) ∨ w.setsPost = false := by
  obtain ⟨us, us', hsplit⟩ := List.append_of_mem hw
  obtain ⟨hbefore, hafter⟩ := h.one_post hsplit
  intro w hmem
  rw [hsplit] at hmem
  rcases List.mem_append.mp hmem with hmem | hmem
  · exact Or.inr (hbefore w hmem)
  · rcases List.mem_cons.mp hmem with rfl | hmem
    · exact Or.inl rfl
    · exact Or.inr (hafter w hmem)

/-- A post is inserted as a published one. -/
theorem Explains.inserted_post (h : Explains coll committed x session) {row : Post}
    (hw : .insert (.post row) ∈ session.writes) :
    row.postStatus = .published ∧ row.deletedAt = none := by
  obtain ⟨_, _, _, _, _, hrow, _⟩ := h.inserted hw
  obtain ⟨_, _, _, _, rfl⟩ := row_eq_post hrow
  exact ⟨rfl, rfl⟩

/-- A write that sets no columns of posts leaves them alone, but for the views. -/
theorem onPost_quiet {w : Write} (h : w.setsPost = false) (row : Post) :
    ∃ views, w.onPost row = { row with postViewCount := views } := by
  cases w with
  | insert => exact ⟨_, rfl⟩
  | update change =>
      cases change with
      | post => cases h
      | views postId =>
          simp only [Write.onPost]
          split
          · exact ⟨_, rfl⟩
          · exact ⟨_, rfl⟩
      | _ => exact ⟨_, rfl⟩

/-- The hidden post has no other update in the transaction, so it ends up hidden. -/
theorem Explains.hidden_after (h : Explains coll committed x session) {postId : Int}
    {row : Post} (hhide : .update (.post postId hideSet) ∈ session.writes)
    (hrow : committed.postAt postId = some row) :
    ∃ row', (session.writes.foldl apply committed).postAt postId = some row' ∧
      row'.postStatus = .hidden := by
  refine ⟨_, postAt_foldl hrow, ?_⟩
  obtain ⟨us, us', hsplit⟩ := List.append_of_mem hhide
  obtain ⟨hbefore, hafter⟩ := h.one_post hsplit
  have hid : (us.foldl (fun row w => w.onPost row) row).postId = postId :=
    foldl_onPost (P := fun row => row.postId = postId)
      (fun w _ row hid _ => (onPost_postId w row).trans hid) (rowAt_eq_some hrow).2
      (rowAt_eq_some hrow).2
  rw [hsplit, List.foldl_append, List.foldl_cons]
  refine foldl_keeps (f := Write.onPost) (P := fun row => row.postStatus = .hidden)
    (fun w hw row hstatus => ?_) ?_
  · obtain ⟨views, hviews⟩ := onPost_quiet (hafter w hw) row
    rw [hviews]
    exact hstatus
  · rw [Write.onPost, if_pos hid]
    rfl

end Transaction

end GreenCommunity.Board
