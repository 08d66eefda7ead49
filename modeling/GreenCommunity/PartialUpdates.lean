import GreenCommunity.Board.Filing
import GreenCommunity.Board.Updates
import GreenCommunity.Menus.Updates
import GreenCommunity.Users.Updates

/-!
# Partial updates

The three services that take `exclude_unset` payloads: each sets the columns whose fields
were sent.  A null goes to the database like any value, and of the columns that can be
sent only the parent of a menu takes it.
-/

namespace GreenCommunity

open GreenCommunity.Base
open GreenCommunity.Base.Prog
open GreenCommunity.Infrastructure (Collation)

section Samples

open Infrastructure (binaryCollation)

theorem title_fits_offer : ∀ title, some (some "offer") = some (some title) →
    Board.TitleFits title := by
  intro title h
  obtain rfl : "offer" = title := by simpa using h
  exact ⟨by decide, by decide⟩

theorem content_fits_unset : ∀ content, none = some (some content) →
    Board.ContentFits content := by
  intro content h
  cases h

/-- A new title and no content. -/
def retitle : Board.PostUpdate where
  postTitle := some (some "offer")
  postContent := none
  title_fits := title_fits_offer
  content_fits := content_fits_unset

def member : Users.User := ⟨⟨5, "ann@green.kr", "hash", true⟩, "ann", .user⟩

/-- A new name, at the top. -/
def rename : Menus.MenuUpdate := ⟨some (some "news"), some none⟩

end Samples

end GreenCommunity
