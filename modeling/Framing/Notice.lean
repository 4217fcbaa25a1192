import Framing.Event
import Framing.Failure
import Framing.Retention.Placement

/-!
What a decoder writes to the log: one notice for each thing worth noting, its level and its wording.
-/

namespace Framing

inductive Notice.Level where
  | trace
  | debug
  | warn
  deriving DecidableEq, Repr

inductive Notice where
  | emptyChunkIgnored
  | lateChunkIgnored (size : Nat) (source : Source)
  | skipped (count : Nat)
  | stalled (position unread results : Nat)
  | passFinished (results unread : Nat)
  | failed (kind : DecodeError.Kind) (defect : Bool) (source : Source) (retained : Nat)
  | oversizedSkipped (count limit : Nat)
  | appended (size : Nat) (placement : Placement) (unread : Nat)
  | kept (size : Nat)
  | fitted (unread before after : Nat)
  | emptied
  | receiverGone
  | endedBefore (signal : EndSignal)
  | ending (unread : Nat)
  | leftoverDiscarded (count : Nat)
  | aborted (discarded : Nat) (signal : EndSignal)
  | transportOpened (source : Source)
  | transportClosing (signal : EndSignal) (source : Source)
  | transportFailed (source : Source) (error : TransportError)
  | flushFailedToo (kind : DecodeError.Kind) (source : Source)
  | abortedAfterFailure (source : Source) (discarded : Nat)
  deriving DecidableEq, Repr

namespace Notice

def level : Notice → Level
  | emptyChunkIgnored   => .trace
  | lateChunkIgnored .. => .warn
  | skipped ..          => .trace
  | stalled ..          => .warn
  | passFinished ..     => .trace
  | failed ..           => .warn
  | oversizedSkipped .. => .warn
  | appended ..         => .trace
  | fitted ..           => .trace
  | emptied             => .trace
  | transportFailed ..  => .warn
  | flushFailedToo ..   => .warn
  | _                   => .debug

def text : Notice → String
  | emptyChunkIgnored                     => "ignoring empty chunk"
  | lateChunkIgnored size source          =>
    s!"discarding {size} bytes delivered after stream end (source={source.text})"
  | skipped count                         => s!"strategy skipped {count} bytes without a frame"
  | stalled position unread results       =>
    "decode strategy returned a frame without consuming input: "
      ++ s!"cursor={position}, unread={unread}, results={results}"
  | passFinished results unread           =>
    s!"decode pass finished: results={results}, unread={unread}"
  | failed kind defect source retained    =>
    s!"decode pass failed: type={kind.name}, defect={defect}, "
      ++ s!"source={source.text}, buffered={retained}"
  | oversizedSkipped count limit          =>
    s!"discarding oversized delimited frame: size={count}, max={limit}"
  | appended size placement unread        =>
    s!"merged {size} bytes into cumulation ({placement.name}), {unread} unread"
  | kept size                             => s!"retaining {size} undecoded bytes"
  | fitted unread before after            =>
    s!"right-sized cumulation: {unread} unread bytes, capacity {before} -> {after}"
  | emptied                               => "cumulation fully drained"
  | receiverGone                          =>
    "downstream receiver dropped; discarding decoder output"
  | endedBefore signal                    =>
    s!"stream already ended; forwarding {signal.text} only"
  | ending unread                         => s!"stream ending with {unread} unread bytes"
  | leftoverDiscarded count               =>
    s!"discarding {count} bytes left after the final decode"
  | aborted discarded signal              =>
    s!"abandoning stream with {discarded} unread bytes; forwarding {signal.text}"
  | transportOpened source                => s!"framestream.drive; source={source.text}"
  | transportClosing signal source        =>
    s!"ending driven stream: {signal.text}, source={source.text}"
  | transportFailed source error          =>
    s!"transport read failed: source={source.text}, error={error.message}"
  | flushFailedToo kind source            =>
    s!"draining after failure also failed: type={kind.name}, source={source.text}"
  | abortedAfterFailure source discarded  =>
    s!"closed stream after decode failure: source={source.text}, discarded={discarded}"

end Notice
end Framing
