import VideoTransport.Document

/-!
# Settings of an Assembly

Two switches that decide how strictly a stream of frames is watched. Both are
off unless set.

## Main definitions

* `Settings`: The two switches.
* `Settings.ofDocument?`: The settings in a document.
* `Settings.json`: The settings as a document in JSON.
-/

namespace VideoTransport

namespace Vp8

/-- How a stream of frames is watched. -/
structure Settings where
  /-- Skipped picture identifiers alone are no reason to report a loss. -/
  hideIdGaps : Bool := false
  /-- After a discontinuity, frames are dropped until the next keyframe. -/
  keyframeAfterBreak : Bool := false
deriving DecidableEq

namespace Settings

/-- The settings in a document. None if it has anything but switches for them. -/
def ofDocument? (d : Document) : Option Settings :=
  match d.settings? ["hide_picture_id_gap", "wait_for_keyframe"] with
  | some [hide, wait] => do
    let hideIdGaps ← Document.orDefault Document.flag? false hide
    let keyframeAfterBreak ← Document.orDefault Document.flag? false wait
    return { hideIdGaps, keyframeAfterBreak }
  | _ => none

/-- The settings as a document in JSON. -/
def json (s : Settings) : String :=
  jsonObject [
    ("hide_picture_id_gap", toString s.hideIdGaps),
    ("wait_for_keyframe", toString s.keyframeAfterBreak)]

end Settings

end Vp8

end VideoTransport
