import OrbMQ.Lib.Io

/-!
# The connection of a client (`internal/client/client.go`)

Packets go to a bounded queue, from which a single goroutine writes them to the connection. `Enqueue`
leaves it at that; `Send` waits on a result channel until its packet was written, or the connection is
closed. Every function here is one atomic section, and `send` and `awaitSend` are the two of
`SendWithDeadline`. How a write ends, and when deadlines pass, is up to the environment.
-/

namespace OrbMQ

export Go (Bytes Err)

def errClientQueueFull : Err := .new "client queue is full"
def errClosed : Err := .new "use of closed network connection"
def errShortWrite : Err := .new "short write"

/-- A packet in the queue, with the result channel of a `Send`. -/
structure QueuedWrite where
  data : Bytes
  result : Option Nat
  deriving DecidableEq, Repr

structure Client where
  id : Bytes := []
  sendQ : List QueuedWrite := []
  done : Bool := false
  writeDone : Bool := false
  /-- What came on the result channels; `channels` is the next one. -/
  results : Nat → Option (Except Err Unit) := fun _ => none
  channels : Nat := 0
  /-- The packets that were accepted to the queue so far. No function reads it. -/
  accepted : List Bytes := []
  /-- The bytes that were written to the connection. No function reads it. -/
  wire : Bytes := []
  deriving Inhabited

namespace Client

def new (id : Bytes) : Client := { id }

def capacity : Nat := 1024

def enqueueWrite (write : QueuedWrite) (c : Client) : Except Err Unit × Client :=
  if c.done then (.error errClosed, c)
  else if c.sendQ.length < capacity then
    (.ok (), { c with sendQ := c.sendQ ++ [write], accepted := c.accepted ++ [write.data] })
  else (.error errClientQueueFull, c)

def enqueue (data : Bytes) (c : Client) : Except Err Unit × Client := c.enqueueWrite ⟨data, none⟩

/-- The first part of `SendWithDeadline`: the packet is queued with a new result channel. -/
def send (data : Bytes) (c : Client) : Except Err Nat × Client :=
  let (res, c') := { c with channels := c.channels + 1 }.enqueueWrite ⟨data, some c.channels⟩
  (res.map fun _ => c.channels, c')

/-- The second part: what it returns; `none` while it waits. -/
def awaitSend (channel : Nat) (c : Client) : Option (Except Err Unit) :=
  match c.results channel with
  | some r => some r
  | none => if c.done then some (.error errClosed) else none

def close (c : Client) : Client := { c with done := true }

/-- How a write of `data` ended, of which `n` bytes were written. -/
def writeError (n : Nat) (err : Option Err) (data : Bytes) : Option Err :=
  if err.isNone ∧ n ≠ data.length then some errShortWrite else err

/-- One round of `writeLoop` that takes a packet: `conn.Write` returns `n` and `err`. -/
def writeNext (n : Nat) (err : Option Err) (c : Client) : Option Client :=
  if c.writeDone then none
  else match c.sendQ with
    | [] => none
    | write :: rest =>
      let res : Except Err Unit := (writeError n err write.data).elim (.ok ()) .error
      let c := { c with
        sendQ := rest
        wire := c.wire ++ write.data.take n
        results := write.result.elim c.results fun ch => Function.update c.results ch (some res) }
      some (if (writeError n err write.data).isSome then { c.close with writeDone := true } else c)

/-- `writeLoop` returns after the connection was closed. -/
def writerExit (c : Client) : Option Client :=
  if c.done ∧ ¬ c.writeDone then some { c with writeDone := true } else none

/-! ## What the functions keep -/

/-- The queue accepts a packet or refuses it. -/
theorem enqueueWrite_cases {c c' : Client} {write : QueuedWrite} {res : Except Err Unit}
    (h : c.enqueueWrite write = (res, c')) :
    c'.id = c.id ∧ ((res = .ok () ∧ c'.accepted = c.accepted ++ [write.data]) ∨
      ((∃ e, res = .error e) ∧ c'.accepted = c.accepted)) := by
  unfold enqueueWrite at h
  repeat' split at h
  all_goals cases h
  · exact ⟨rfl, .inr ⟨⟨_, rfl⟩, rfl⟩⟩
  · exact ⟨rfl, .inl ⟨rfl, rfl⟩⟩
  · exact ⟨rfl, .inr ⟨⟨_, rfl⟩, rfl⟩⟩

theorem enqueue_id (c : Client) (data : Bytes) : (c.enqueue data).2.id = c.id :=
  (enqueueWrite_cases (c := c) rfl).1

theorem send_cases {c c' : Client} {data : Bytes} {res : Except Err Nat} (h : c.send data = (res, c')) :
    c'.id = c.id ∧ (((∃ ch, res = .ok ch) ∧ c'.accepted = c.accepted ++ [data]) ∨
      ((∃ e, res = .error e) ∧ c'.accepted = c.accepted)) := by
  unfold send at h
  rcases he : ({ c with channels := c.channels + 1 } : Client).enqueueWrite ⟨data, some c.channels⟩
    with ⟨r, c₁⟩
  simp only [he, Prod.mk.injEq] at h
  obtain ⟨rfl, rfl⟩ := h
  obtain ⟨hid, ⟨rfl, ha⟩ | ⟨⟨e, rfl⟩, ha⟩⟩ := enqueueWrite_cases he
  · exact ⟨hid, .inl ⟨⟨_, rfl⟩, ha⟩⟩
  · exact ⟨hid, .inr ⟨⟨_, rfl⟩, ha⟩⟩

theorem send_id (c : Client) (data : Bytes) : (c.send data).2.id = c.id := (send_cases (c := c) rfl).1

theorem writeNext_keeps {c c' : Client} {n : Nat} {err : Option Err} (h : c.writeNext n err = some c') :
    c'.id = c.id ∧ c'.accepted = c.accepted := by
  unfold writeNext at h
  split at h
  · cases h
  · split at h
    · cases h
    · have h := (Option.some.inj h).symm
      subst h
      split <;> exact ⟨rfl, rfl⟩

end Client

end OrbMQ
