/-!
# Consoles

Output goes to two channels, in one order over both. A line is put together from parts, and every
part of it, the newline included, is a write of its own. A console takes writes one by one and may
refuse any of them, in the middle of a line too; after a refusal nothing more is sent.
-/

namespace HexMachine

inductive Channel where
  | out
  | err
deriving DecidableEq, Repr

/-- A text that goes to one of the channels in one go. -/
structure Write where
  channel : Channel
  text : String
deriving DecidableEq, Repr

/-- A line for one of the channels, as the parts that make it up, without its newline. -/
structure OutputLine where
  channel : Channel
  parts : List String
deriving DecidableEq, Repr

namespace OutputLine

def text (line : OutputLine) : String := String.join line.parts ++ "\n"

/-- The writes that send a line: one for each part that is not empty, and one for the newline. -/
def writes (line : OutputLine) : List Write :=
  ((line.parts ++ ["\n"]).filter (· ≠ "")).map (⟨line.channel, ·⟩)

end OutputLine

def textOn (channel : Channel) (log : Array Write) : String :=
  log.foldl (fun text write => if write.channel = channel then text ++ write.text else text) ""

/-- A taker of writes with a state of type `σ`; refusing a write gives no new state. -/
structure Console (σ : Type) where
  accept : σ → Write → Option σ

/-- What became of the writes sent to a console: its state, the log of those it took, and the channel
of the one it refused, if it refused one. -/
structure Sent (σ : Type) where
  state : σ
  log : Array Write
  refused : Option Channel

/-- Sends writes in order, up to the first that is refused. -/
def Console.send {σ : Type} (console : Console σ) (state : σ) (log : Array Write) :
    List Write → Sent σ
  | [] => ⟨state, log, none⟩
  | write :: rest =>
    match console.accept state write with
    | some next => console.send next (log.push write) rest
    | none => ⟨state, log, some write.channel⟩

namespace Console

def unlimited : Console Unit := ⟨fun _ _ => some ()⟩

/-- How many line ends each channel has taken. -/
structure LineCount where
  out : Nat := 0
  err : Nat := 0

def lineEnds (text : String) : Nat := text.toList.count '\n'

/-- Whether a channel with an optional limit can take more after `taken` line ends. -/
def hasRoom (limit : Option Nat) (taken : Nat) : Bool :=
  match limit with
  | none => true
  | some n => taken < n

/-- The console whose channels are full once they have taken a given number of line ends. A write that
holds several of them is taken whole. -/
def limited (outLimit errLimit : Option Nat) : Console LineCount where
  accept := fun taken write =>
    match write.channel with
    | .out =>
      if hasRoom outLimit taken.out then some { taken with out := taken.out + lineEnds write.text }
      else none
    | .err =>
      if hasRoom errLimit taken.err then some { taken with err := taken.err + lineEnds write.text }
      else none

end Console

end HexMachine
