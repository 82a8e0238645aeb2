import SuperRaid.Transition
import SuperRaid.Image

namespace SuperRaid.HashRing

open Image

def ringSlots : Nat := 8

def chunkSize : Nat := 8192 * 1024

/-- The OpenSSL digest calls of the consumer. The field final_updates is the
assumption on them: updates compose by concatenation. -/
structure Evp where
  Ctx : Type
  init : Ctx
  update : Ctx → Bytes → Ctx
  final : Ctx → Bytes
  sha256 : Bytes → Bytes
  final_updates : ∀ chunks : List Bytes, final (chunks.foldl update init) = sha256 chunks.flatten

structure Slot where
  data : Bytes
  len : Nat

structure Ring where
  slots : Fin ringSlots → Slot
  head : BitVec 32
  tail : BitVec 32
  done : Bool
  error : Bool

inductive ProducerPc
  | idle | loadHead | loadError | read | setLen | storeTail
  | storeError | storeErrorDone | storeDone | exited
  deriving DecidableEq

structure Producer where
  pc : ProducerPc
  offset : Nat
  tail : BitVec 32
  head : BitVec 32

inductive ConsumerPc
  | idle | init | loadTail | loadDone | update | storeHead
  | storeError | storeErrorDone | loadError | final | exited
  deriving DecidableEq

/-- The field fed records the arguments of the update calls made so far. -/
structure Consumer (Ctx : Type) where
  pc : ConsumerPc
  head : BitVec 32
  tail : BitVec 32
  ctx : Ctx
  fed : List Bytes
  digest : Bytes
  error : Bool

inductive MainPc
  | start | createConsumer | consumerError | consumerDone | createProducer
  | producerError | producerDone | joinProducer | producerJoinError
  | joinConsumer | consumerJoinError | loadError | returned (code : Int)
  deriving DecidableEq

structure Main where
  pc : MainPc
  consumerCreated : Bool
  producerCreated : Bool
  digest : Bytes

structure State (evp : Evp) where
  ring : Ring
  producer : Producer
  consumer : Consumer evp.Ctx
  main : Main

/-- One scheduling choice. The argument is the outcome of the call made at
this point: a pread result, or whether an EVP or pthread call succeeds. -/
inductive Action
  | main (ok : Bool)
  | producer (count : Option Nat)
  | consumer (ok : Bool)

def slotOf (counter : BitVec 32) : Fin ringSlots := ⟨counter.toNat % ringSlots, Nat.mod_lt _ (by decide)⟩

def want (total offset : Nat) : Nat := if total - offset < chunkSize then total - offset else chunkSize

def alignedWant (total offset : Nat) : Nat := (want total offset + 511) / 512 * 512

def producerLoop (total offset : Nat) : ProducerPc := if offset < total then .loadHead else .storeDone

def producerStep (dev : Bytes) (total : Nat) (r : Ring) (p : Producer) (count : Option Nat) :
    Option (Ring × Producer) :=
  let slot := slotOf p.tail
  match p.pc with
  | .idle | .exited => none
  | .loadHead => some (r, { p with head := r.head, pc := .loadError })
  | .loadError =>
      if r.error then some (r, { p with pc := .exited })
      else if p.tail - p.head < 8 then some (r, { p with pc := .read })
      else some (r, { p with pc := .loadHead })
  | .read =>
      match count with
      | none => some (r, { p with pc := .storeError })
      | some n =>
          if n ≤ alignedWant total p.offset ∧ n ≤ dev.length - p.offset then
            let filled := { r.slots slot with data := overwrite (r.slots slot).data 0 (slice dev p.offset n) }
            let r' := { r with slots := Function.update r.slots slot filled }
            if n = 0 ∨ n < want total p.offset then some (r', { p with pc := .storeError })
            else some (r', { p with pc := .setLen })
          else none
  | .setLen =>
      let filled := { r.slots slot with len := want total p.offset }
      some ({ r with slots := Function.update r.slots slot filled }, { p with pc := .storeTail })
  | .storeTail =>
      let offset := p.offset + want total p.offset
      some ({ r with tail := p.tail + 1 },
        { p with offset := offset, tail := p.tail + 1, pc := producerLoop total offset })
  | .storeError => some ({ r with error := true }, { p with pc := .storeErrorDone })
  | .storeErrorDone | .storeDone => some ({ r with done := true }, { p with pc := .exited })

def consumerStep (evp : Evp) (r : Ring) (c : Consumer evp.Ctx) (ok : Bool) :
    Option (Ring × Consumer evp.Ctx) :=
  let slot := r.slots (slotOf c.head)
  match c.pc with
  | .idle | .exited => none
  | .init =>
      if ok then some (r, { c with ctx := evp.init, pc := .loadTail })
      else some (r, { c with error := true, pc := .exited })
  | .loadTail => some (r, { c with tail := r.tail, pc := if c.head < r.tail then .update else .loadDone })
  | .loadDone => some (r, { c with pc := if r.done ∧ c.tail ≤ c.head then .loadError else .loadTail })
  | .update =>
      let bytes := slot.data.take slot.len
      if ok then
        some (r, { c with
          ctx := evp.update c.ctx bytes, fed := c.fed ++ [bytes], head := c.head + 1, pc := .storeHead })
      else some (r, { c with error := true, pc := .storeError })
  | .storeHead => some ({ r with head := c.head }, { c with pc := .loadTail })
  | .storeError => some ({ r with error := true }, { c with pc := .storeErrorDone })
  | .storeErrorDone => some ({ r with done := true }, { c with pc := .exited })
  | .loadError => some (r, { c with pc := if r.error then .exited else .final })
  | .final =>
      if ok then some (r, { c with digest := evp.final c.ctx, pc := .exited })
      else some (r, { c with error := true, pc := .exited })

/-- The thread that calls hash_sha256_fd. A failed join may be reported at
any time; a successful one waits for the thread to return. -/
def mainStep (evp : Evp) (total : Nat) (s : State evp) (ok : Bool) : Option (State evp) :=
  let m := s.main
  match m.pc with
  | .start =>
      if total = 0 then
        if ok then some { s with main := { m with digest := evp.sha256 [], pc := .returned 0 } }
        else some { s with main := { m with pc := .returned (-1) } }
      else if ok then some { s with main := { m with pc := .createConsumer } }
      else some { s with main := { m with pc := .returned (-1) } }
  | .createConsumer =>
      if ok then
        some { s with
          consumer := { s.consumer with pc := .init }
          main := { m with consumerCreated := true, pc := .createProducer } }
      else some { s with main := { m with pc := .consumerError } }
  | .consumerError => some { s with ring := { s.ring with error := true }, main := { m with pc := .consumerDone } }
  | .consumerDone => some { s with ring := { s.ring with done := true }, main := { m with pc := .producerError } }
  | .createProducer =>
      if ok then
        some { s with
          producer := { s.producer with pc := producerLoop total 0 }
          main := { m with producerCreated := true, pc := .joinProducer } }
      else some { s with main := { m with pc := .producerError } }
  | .producerError => some { s with ring := { s.ring with error := true }, main := { m with pc := .producerDone } }
  | .producerDone => some { s with ring := { s.ring with done := true }, main := { m with pc := .joinProducer } }
  | .joinProducer =>
      if m.producerCreated then
        if ok then
          if s.producer.pc = .exited then some { s with main := { m with pc := .joinConsumer } } else none
        else some { s with main := { m with pc := .producerJoinError } }
      else some { s with main := { m with pc := .joinConsumer } }
  | .producerJoinError =>
      some { s with ring := { s.ring with error := true }, main := { m with pc := .joinConsumer } }
  | .joinConsumer =>
      if m.consumerCreated then
        if ok then
          if s.consumer.pc = .exited then some { s with main := { m with pc := .loadError } } else none
        else some { s with main := { m with pc := .consumerJoinError } }
      else some { s with main := { m with pc := .loadError } }
  | .consumerJoinError =>
      some { s with ring := { s.ring with error := true }, main := { m with pc := .loadError } }
  | .loadError =>
      if s.ring.error ∨ s.consumer.error then some { s with main := { m with pc := .returned (-1) } }
      else some { s with main := { m with digest := s.consumer.digest, pc := .returned 0 } }
  | .returned _ => none

def step (evp : Evp) (dev : Bytes) (total : Nat) (s : State evp) : Action → Option (State evp)
  | .main ok => mainStep evp total s ok
  | .producer count =>
      (producerStep dev total s.ring s.producer count).map (fun q => { s with ring := q.1, producer := q.2 })
  | .consumer ok =>
      (consumerStep evp s.ring s.consumer ok).map (fun q => { s with ring := q.1, consumer := q.2 })

def initial (evp : Evp) (digest : Bytes) : State evp where
  ring := ⟨fun _ => ⟨List.replicate chunkSize 0, 0⟩, 0, 0, false, false⟩
  producer := ⟨.idle, 0, 0, 0⟩
  consumer := ⟨.idle, 0, 0, evp.init, [], List.replicate 32 0, false⟩
  main := ⟨.start, false, false, digest⟩

end SuperRaid.HashRing
