import GreenCommunity.Likes.Pairs

/-!
# The events of complete calls

A like, an unlike and a sync from their first event to their last, with the replies they get
on the way.
-/

namespace GreenCommunity.Likes

open GreenCommunity.Base
open GreenCommunity.Infrastructure (oneOrNone)

/-- The sync up to its last read of a key whose like is not in the table yet. -/
def syncFront (p u : Nat) : List LikesEvent :=
  [⟨.scanIter "post_like:", .ok [likeKey p u]⟩, ⟨.get (likeKey p u), .ok (some "1")⟩,
    ⟨.selectLike p u, .ok []⟩]

/-- The rest of the sync. -/
def syncBack (p u : Nat) : List LikesEvent :=
  [⟨.insertLike p u, .ok ()⟩, ⟨.commit, .ok ()⟩, ⟨.del [likeKey p u], .ok ()⟩,
    ⟨.close, .ok ()⟩]

/-- A like of a post that the user does not like yet. -/
def likeEvents (p u : Nat) : List LikesEvent :=
  [⟨.selectPost p, .ok [⟨p, .published, none⟩]⟩, ⟨.get (likeKey p u), .ok none⟩,
    ⟨.selectLike p u, .ok []⟩, ⟨.set (likeKey p u) "1", .ok ()⟩, ⟨.close, .ok ()⟩]

/-- An unlike of a like that waits in Redis. -/
def unlikeEvents (p u : Nat) : List LikesEvent :=
  [⟨.get (likeKey p u), .ok (some "1")⟩, ⟨.set (likeKey p u) "0", .ok ()⟩,
    ⟨.close, .ok ()⟩]

/-- An unlike of a like that is in the table. -/
def unlikeRowEvents (row : PostLike) (p u : Nat) : List LikesEvent :=
  [⟨.get (likeKey p u), .ok none⟩, ⟨.selectLike p u, .ok [row]⟩,
    ⟨.set (likeKey p u) "0", .ok ()⟩, ⟨.close, .ok ()⟩]

theorem sync_runs (p u : Nat) :
    (serve .sync).Runs (syncFront p u ++ syncBack p u) (.ret ()) := by
  have hloop : scanKeys [likeKey p u] none [] =
      (perform (.get (likeKey p u)) >>= fun status =>
        perform (.selectLike p u) >>= fun rows => oneOrNone rows >>= fun like =>
          .ret (change status p u like, [likeKey p u])) := by
    simp only [scanKeys, splitKey_likeKey, Prog.ret_bind]
    rfl
  refine .cons ?_
  show Prog.Runs (Prog.bind (Prog.handle (Prog.handle
    (scanKeys [likeKey p u] none [] >>= fun x => flush x.1 >>= fun _ =>
      perform .commit >>= fun _ => if x.2 ≠ [] then perform (.del x.2) else pure ())
    _) _) _) _ _
  rw [hloop]
  exact .cons (.cons (.cons (.cons (.cons (.cons .nil)))))

theorem like_runs (p u : Nat) : (serve (.like p u)).Runs (likeEvents p u) (.ret ()) :=
  .cons (.cons (.cons (.cons (.cons .nil))))

theorem unlike_runs (p u : Nat) :
    (serve (.unlike p u)).Runs (unlikeEvents p u) (.ret ()) :=
  .cons (.cons (.cons .nil))

theorem unlikeRow_runs (row : PostLike) (p u : Nat) :
    (serve (.unlike p u)).Runs (unlikeRowEvents row p u) (.ret ()) :=
  .cons (.cons (.cons (.cons .nil)))

end GreenCommunity.Likes
