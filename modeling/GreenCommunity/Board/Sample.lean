import GreenCommunity.Board.Requests

/-!
# A sample board

One post with one report, its author, and a moderator, so that concrete runs can be
written down.
-/

namespace GreenCommunity.Board

open GreenCommunity.Base

/-- A post of the user 5, reported by the user 6. -/
def badPost : Post := ⟨3, "spam", "buy", 5, 0, .published, false, none⟩

def complaint : Report :=
  ⟨1, some 6, .post, some 3, "spam", "buy", none, "", 5, "SPAM", none, .pending, none, none,
    none, 10⟩

def ban : ReportProcessRequest := ⟨.accepted, some .banned, none⟩

def spammer : User := ⟨5, "spammer", .user, true⟩

def moderator : User := ⟨9, "moderator", .admin, true⟩

/-- Nothing is asked of the libraries. -/
def sampleDeployment : Deployment where
  libs := { resizeImage _ _ := none, createThumbnailImage _ := none, lower := id }
  storage := false

/-- The board before anybody has dealt with the report, for two requests. -/
def board : State Bool where
  db :=
    { committed := ⟨[spammer, moderator], [badPost], [], [], [complaint], []⟩
      session := fun _ => .idle }
  nextId _ := 10
  objects _ := none
  fileIds := []

theorem idle_board (c : Bool) : board.db.session c = .idle := rfl

/-- With two callers a write waits for the other caller only. -/
theorem free_of_other {db : Db Bool Tables Write} {c : Bool} {w : Write}
    (h : ∀ w' ∈ (db.session !c).writes, w.key ≠ w'.key) : db.Free Write.conflict c w := by
  intro c' hc
  rw [Bool.eq_not_of_ne hc]
  exact h

end GreenCommunity.Board
