import Mathlib.Tactic

/-!
# Streaming compressors

A compressor and a decompressor that are called again and again with some bytes of
input and some room for output.  A call goes on until its input is used up or its
room is full; it fails where it can do neither.  Compressing a content in one flush and
one finishing call gives its stream, and decompressing the stream gives the content
whatever stands behind the stream.
-/

set_option autoImplicit false

namespace Luomi.StreamCodec

abbrev Bytes := List UInt8

inductive Code where
  | ok
  | streamEnd
  | needDict
  | streamError
  | dataError
  | memError
  | bufError
  deriving DecidableEq

inductive Flush where
  | noFlush
  | fullFlush
  | finish

/-- The outcome of a call: how much of its input it has used, and its output. -/
structure Answer (σ : Type) where
  code : Code
  state : σ
  taken : Nat
  produced : Bytes

structure CodecPair where
  Deflating : Type
  Inflating : Type
  deflateInit : Deflating
  deflate : Deflating -> Flush -> Bytes -> Nat -> Answer Deflating
  deflateEnd : Deflating -> Code
  inflateInit : Inflating
  inflate : Inflating -> Bytes -> Nat -> Answer Inflating
  inflateEnd : Inflating -> Code
  /-- The bytes of a flushed content. -/
  flushed : Bytes -> Bytes
  /-- The bytes that close a stream behind them. -/
  finished : Bytes -> Bytes
  /-- A compressor that has flushed a content. -/
  Flushed : Bytes -> Deflating -> Prop
  /-- A decompressor that has taken some bytes of a stream and produced some of its
  content. -/
  Reading : Bytes -> Nat -> Nat -> Inflating -> Prop
  finished_some : ∀ content, finished content ≠ []
  deflate_noRoom : ∀ state flush input, (deflate state flush input 0).code = .bufError
  flush_ends : ∀ content room, content ≠ [] -> (flushed content).length < room ->
    (deflate deflateInit .fullFlush content room).code = .ok ∧
      (deflate deflateInit .fullFlush content room).taken = content.length ∧
      (deflate deflateInit .fullFlush content room).produced = flushed content ∧
      Flushed content (deflate deflateInit .fullFlush content room).state
  flush_fills : ∀ content room, content ≠ [] -> 0 < room -> room ≤ (flushed content).length ->
    (deflate deflateInit .fullFlush content room).code = .ok ∧
      (deflate deflateInit .fullFlush content room).produced.length = room
  finish_ends : ∀ content state room, Flushed content state -> (finished content).length ≤ room ->
    (deflate state .finish [] room).code = .streamEnd ∧
      (deflate state .finish [] room).produced = finished content ∧
      deflateEnd (deflate state .finish [] room).state = .ok
  finish_fills : ∀ content state room, Flushed content state -> 0 < room ->
    room < (finished content).length ->
    (deflate state .finish [] room).code = .ok ∧
      (deflate state .finish [] room).produced.length = room
  reading_init : ∀ content, Reading content 0 0 inflateInit
  reading_end : ∀ content taken made state, Reading content taken made state ->
    inflateEnd state = .ok
  inflate_spec : ∀ content taken made state rest room, Reading content taken made state ->
    0 < room ->
    let answer := inflate state ((flushed content ++ finished content).drop taken ++ rest) room
    (answer.code = .streamEnd ∧ answer.produced = content.drop made ∧
        inflateEnd answer.state = .ok) ∨
      (answer.code = .ok ∧ made + room ≤ content.length ∧
        answer.produced = (content.drop made).take room ∧
        taken + answer.taken ≤ (flushed content ++ finished content).length ∧
        Reading content (taken + answer.taken) (made + room) answer.state)

namespace CodecPair

variable (codec : CodecPair)

def stream (content : Bytes) : Bytes := codec.flushed content ++ codec.finished content

variable {codec} {content : Bytes}

theorem length_stream : (codec.stream content).length =
      (codec.flushed content).length + (codec.finished content).length :=
  List.length_append

theorem finished_pos : 0 < (codec.finished content).length :=
  List.length_pos_of_ne_nil (codec.finished_some content)

theorem inflate_stream {taken made room : Nat} {state : codec.Inflating}
    (reading : codec.Reading content taken made state) (positive : 0 < room) (rest : Bytes) :
    ∃ answer, codec.inflate state ((codec.stream content).drop taken ++ rest) room = answer ∧
      (answer.code = .streamEnd ∧ answer.produced = content.drop made ∧
          codec.inflateEnd answer.state = .ok ∨ answer.code = .ok ∧ made + room ≤ content.length ∧
          answer.produced = (content.drop made).take room ∧
          taken + answer.taken ≤ (codec.stream content).length ∧
          codec.Reading content (taken + answer.taken) (made + room) answer.state) :=
  ⟨_, rfl, codec.inflate_spec content taken made state rest room reading positive⟩

end CodecPair

end Luomi.StreamCodec
