import SchemaWire.Message.Segments

/-!
# A message as a cursor over its bytes

Whoever moves through a message, by passing over bytes or by reading them into a buffer, in any
mixture and whatever the segments are, sees what a cursor over the plain list of its bytes would
show. Both movements go from segment to segment, and since empty segments at the front are dropped
before each step, every step passes a byte.
-/

namespace SchemaWire

/-- Each byte of a number is its digit to the base of 256, the least significant one first. -/
theorem LittleEndian.getElem?_encode {width k : Nat} (h : k < width) (n : Nat) :
    (encode width n)[k]? = some (UInt8.ofNat (n / 256 ^ k % 256)) := by
  induction width generalizing k n with
  | zero => exact absurd h (Nat.not_lt_zero k)
  | succ width ih =>
    cases k with
    | zero => rw [encode, List.getElem?_cons_zero, Nat.pow_zero, Nat.div_one]
    | succ k =>
      rw [encode, List.getElem?_cons_succ, ih (Nat.lt_of_succ_lt_succ h), Nat.div_div_eq_div_mul,
        Nat.pow_succ']

namespace Message

/-! Placeholders -/

/-- Bytes that are those of a buffer but for four of them, which are a number. -/
structure IsPatch (buffer : List UInt8) (position offset : Nat) (bytes : List UInt8) : Prop where
  /-- There are as many bytes. -/
  length_eq : bytes.length = buffer.length
  /-- Before the four bytes and behind them nothing changes. -/
  outside : ∀ i, i < position ∨ position + 4 ≤ i → bytes[i]? = buffer[i]?
  /-- The four bytes are those of the number, the least significant one first. -/
  inside : ∀ k < 4, bytes[position + k]? = some (UInt8.ofNat (offset / 256 ^ k % 256))

/-- A patched message is the buffer with the offset in place of the placeholder. -/
theorem isPatch_patched {buffer : List UInt8} {position : Nat}
    (h : position + 4 ≤ buffer.length) (offset : Nat) :
    IsPatch buffer position offset (patched buffer position offset).toList := by
  have hlist : (patched buffer position offset).toList
      = buffer.take position ++ (LittleEndian.encode 4 offset ++ buffer.drop (position + 4)) := by
    rw [toList, patched, List.flatten_cons, List.flatten_cons, List.flatten_singleton]
  have hbefore : (buffer.take position).length = position := List.length_take_of_le (by omega)
  have hoffset := LittleEndian.length_encode 4 offset
  rw [hlist]
  refine ⟨?_, fun i hi => ?_, fun k hk => ?_⟩
  · rw [List.length_append, List.length_append, hbefore, hoffset, List.length_drop]
    omega
  · rcases hi with hi | hi
    · rw [List.getElem?_append_left (by omega), List.getElem?_take_of_lt hi]
    · rw [List.getElem?_append_right (by omega), List.getElem?_append_right (by omega),
        List.getElem?_drop, hbefore, hoffset]
      congr 1
      omega
  · rw [List.getElem?_append_right (by omega), hbefore, Nat.add_sub_cancel_left,
      List.getElem?_append_left (by omega), LittleEndian.getElem?_encode hk]

/-! Segments -/

/-- Dropping empty segments drops no byte. -/
theorem flatten_dropEmpty (segments : List (List UInt8)) :
    (dropEmpty segments).flatten = segments.flatten := by
  fun_induction dropEmpty segments with
  | case1 rest ih => rw [ih, List.flatten_cons, List.nil_append]
  | case2 => rfl

/-- What lies together at the front is the first segment that is not empty. -/
theorem chunk_eq_headD (message : Message) :
    message.chunk = (dropEmpty message.segments).headD [] := by
  rw [chunk]
  fun_induction dropEmpty message.segments with
  | case1 rest ih => exact ih
  | case2 segments hfront =>
    cases segments with
    | nil => rfl
    | cons front rest =>
      cases front with
      | nil => exact absurd rfl (hfront rest)
      | cons byte bytes => rfl

/-- A segment in front of which the empty ones are dropped has a byte. -/
theorem length_pos_of_dropEmpty {segments rest : List (List UInt8)} {front : List UInt8}
    (h : dropEmpty segments = front :: rest) : 0 < front.length := by
  fun_induction dropEmpty segments with
  | case1 _ ih => exact ih h
  | case2 segments hfront =>
    subst h
    exact List.length_pos_iff.mpr fun hnil => hfront rest (by rw [hnil])

/-- What lies together at the front is what the rest starts with. -/
theorem chunk_prefix (message : Message) : message.chunk <+: message.toList := by
  rw [chunk_eq_headD, toList, ← flatten_dropEmpty]
  cases dropEmpty message.segments with
  | nil => exact List.nil_prefix
  | cons front rest => exact List.prefix_append front rest.flatten

/-- Something lies together at the front, unless no byte is left. -/
theorem chunk_eq_nil_iff {message : Message} : message.chunk = [] ↔ message.toList = [] := by
  refine ⟨fun h => ?_, fun h => List.prefix_nil.mp (h ▸ message.chunk_prefix)⟩
  rw [chunk_eq_headD] at h
  rw [toList, ← flatten_dropEmpty]
  cases hsegments : dropEmpty message.segments with
  | nil => rfl
  | cons front rest =>
    rw [hsegments] at h
    have hpos := length_pos_of_dropEmpty hsegments
    rw [show front = [] from h] at hpos
    exact absurd hpos (Nat.lt_irrefl 0)

/-! Passing over bytes -/

/-- There is nothing behind a number of bytes exactly if there are fewer of them. -/
theorem advanceSegments_eq_none_iff {n : Nat} {segments : List (List UInt8)} :
    advanceSegments n segments = none ↔ segments.flatten.length < n := by
  fun_induction advanceSegments n segments with
  | case1 => simp
  | case2 => simp
  | case3 n segment rest hle ih =>
    rw [ih, List.flatten_cons, List.length_append]
    omega
  | case4 n segment rest hle =>
    rw [List.flatten_cons, List.length_append]
    simp only [reduceCtorEq, false_iff]
    omega

/-- Behind a number of bytes stand the bytes without so many at the front. -/
theorem flatten_of_advanceSegments {n : Nat} {segments rest : List (List UInt8)}
    (h : advanceSegments n segments = some rest) : rest.flatten = segments.flatten.drop n := by
  fun_induction advanceSegments n segments with
  | case1 =>
    cases h
    rfl
  | case2 => cases h
  | case3 n segment tail hle ih =>
    rw [ih h, List.flatten_cons, List.drop_append, List.drop_of_length_le hle, List.nil_append]
  | case4 n segment tail hle =>
    cases h
    have hzero : n - segment.length = 0 := by omega
    rw [List.flatten_cons, List.flatten_cons, List.drop_append, hzero, List.drop_zero]

/-- Bytes within the first segment are passed over before the others. -/
theorem advanceSegments_cons_add {k : Nat} {front : List UInt8} (h : k ≤ front.length) (n : Nat)
    (rest : List (List UInt8)) :
    advanceSegments (k + n) (front :: rest) = advanceSegments n (front.drop k :: rest) := by
  rw [advanceSegments, advanceSegments, List.length_drop]
  by_cases hle : front.length ≤ k + n
  · have hsub : k + n - front.length = n - (front.length - k) := by omega
    rw [if_pos hle, if_pos (by omega), hsub]
  · rw [if_neg hle, if_neg (by omega), List.drop_drop]

/-- Passing over a sum is passing over one number after the other. -/
theorem advanceSegments_add (a b : Nat) (segments : List (List UInt8)) :
    advanceSegments (a + b) segments
      = (advanceSegments a segments).bind (advanceSegments b) := by
  fun_induction advanceSegments a segments with
  | case1 => rw [Nat.zero_add, Option.bind_some]
  | case2 n =>
    rw [Nat.succ_add, advanceSegments]
    rfl
  | case3 a segment rest hle ih =>
    have hsum : a + b - segment.length = a - segment.length + b := by omega
    rw [advanceSegments, if_pos (by omega), hsum, ih]
  | case4 a segment rest hle =>
    rw [Option.bind_some, advanceSegments_cons_add (Nat.le_of_not_le hle)]

/-- Passing over no byte drops the empty segments at the front. -/
theorem advanceSegments_zero (segments : List (List UInt8)) :
    advanceSegments 0 segments = some (dropEmpty segments) := by
  fun_induction dropEmpty segments with
  | case1 rest ih =>
    rw [advanceSegments, List.length_nil, if_pos (Nat.le_refl 0)]
    exact ih
  | case2 segments hfront =>
    cases segments with
    | nil => rfl
    | cons front rest =>
      have hpos : 0 < front.length :=
        List.length_pos_iff.mpr fun hnil => hfront rest (by rw [hnil])
      rw [advanceSegments, if_neg (by omega), List.drop_zero]

/-- Empty segments at the front make no difference to what is passed over. -/
theorem advanceSegments_dropEmpty (n : Nat) (segments : List (List UInt8)) :
    advanceSegments n (dropEmpty segments) = advanceSegments n segments := by
  have h := advanceSegments_add 0 n segments
  rw [Nat.zero_add, advanceSegments_zero, Option.bind_some] at h
  exact h.symm

/-- Looking at the front as a buffered reader does leaves the same front. -/
theorem chunk_fill (message : Message) : message.fill.2.chunk = message.chunk := by
  have h := advanceSegments_dropEmpty 0 message.segments
  rw [advanceSegments_zero, advanceSegments_zero] at h
  rw [chunk_eq_headD, chunk_eq_headD]
  exact congrArg (List.headD · []) (Option.some.inj h)

/-- A message can be advanced by at most as many bytes as it has. -/
theorem advance?_eq_none_iff {message : Message} {n : Nat} :
    message.advance? n = none ↔ message.length < n := by
  rw [advance?, Option.map_eq_none_iff, advanceSegments_eq_none_iff, ← length_toList, toList]

/-- An advanced message has the bytes behind the given number. -/
theorem toList_of_advance? {message rest : Message} {n : Nat}
    (h : message.advance? n = some rest) : rest.toList = message.toList.drop n := by
  obtain ⟨segments, hsegments, rfl⟩ := Option.map_eq_some_iff.mp h
  exact flatten_of_advanceSegments hsegments

/-- Advancing by a sum is advancing by one number after the other. -/
theorem advance?_add (message : Message) (a b : Nat) :
    message.advance? (a + b) = (message.advance? a).bind (·.advance? b) := by
  rw [advance?, advance?, advanceSegments_add]
  cases advanceSegments a message.segments with
  | none => rfl
  | some rest => rfl

/-- What is left after advancing has no empty segment in front. -/
theorem advance?_zero_of_advance? {message rest : Message} {n : Nat}
    (h : message.advance? n = some rest) : rest.advance? 0 = some rest := by
  have hadd := message.advance?_add n 0
  rw [Nat.add_zero, h, Option.bind_some] at hadd
  exact hadd.symm

/-- The first segment that is not empty, cut somewhere, stands before the others. -/
theorem toList_of_dropEmpty {message : Message} {front : List UInt8} {rest : List (List UInt8)}
    (h : dropEmpty message.segments = front :: rest) (k : Nat) :
    message.toList = front.take k ++ (Message.mk (front.drop k :: rest)).toList := by
  rw [toList, ← flatten_dropEmpty, h, toList, List.flatten_cons, List.flatten_cons,
    ← List.append_assoc, List.take_append_drop]

/-- Pass over bytes step by step, each step as far as the first segment goes, and collect what was
passed over. -/
def advanceInSteps (message : Message) (n : Nat) : Option (List UInt8 × Message) :=
  if n = 0 then some ([], ⟨dropEmpty message.segments⟩)
  else
    match _h : dropEmpty message.segments with
    | [] => none
    | front :: rest =>
      let step := min n front.length
      (advanceInSteps ⟨front.drop step :: rest⟩ (n - step)).map fun later =>
        (front.take step ++ later.1, later.2)
termination_by n
decreasing_by
  have := length_pos_of_dropEmpty _h
  omega

/-- Going step by step passes over the same bytes. -/
theorem advanceInSteps_eq (message : Message) (n : Nat) :
    message.advanceInSteps n
      = (message.advance? n).map fun rest => (message.toList.take n, rest) := by
  fun_induction advanceInSteps message n with
  | case1 message =>
    rw [advance?, advanceSegments_zero, List.take_zero]
    rfl
  | case2 message n hzero hempty =>
    rw [advance?, ← advanceSegments_dropEmpty, hempty]
    cases n with
    | zero => exact absurd rfl hzero
    | succ n => rfl
  | case3 message n hzero front rest hsegments step ih =>
    have hstep : step ≤ front.length := Nat.min_le_right n front.length
    have hlength : (front.take step).length = step := List.length_take_of_le hstep
    have hn : step + (n - step) = n := Nat.add_sub_cancel' (Nat.min_le_left n front.length)
    have hadvance : message.advance? n
        = (Message.mk (front.drop step :: rest)).advance? (n - step) := by
      rw [advance?, ← advanceSegments_dropEmpty, hsegments, ← hn, advanceSegments_cons_add hstep,
        hn]
      rfl
    have htake : message.toList.take n
        = front.take step ++ (Message.mk (front.drop step :: rest)).toList.take (n - step) := by
      rw [toList_of_dropEmpty hsegments step, List.take_append, hlength,
        List.take_of_length_le (by omega)]
    rw [ih, hadvance, htake, Option.map_map]
    rfl

/-! Reading -/

/-- Reading gives the bytes at the front. -/
theorem read_fst (message : Message) (n : Nat) :
    (message.read n).1 = message.toList.take n := by
  rw [read]
  by_cases hempty : message.toList.take n = []
  · rw [hempty]
    rfl
  · rw [if_neg (by simpa using hempty)]

/-- Reading nothing leaves the message as it is. -/
theorem read_of_take_eq_nil {message : Message} {n : Nat} (h : message.toList.take n = []) :
    message.read n = ([], message) := by
  rw [read, h]
  rfl

/-- Reading advances by the bytes that were read, if there is one or no empty segment stands in
front. -/
theorem advance?_length_take {message : Message} {n : Nat}
    (h : message.toList.take n = [] → message.advance? 0 = some message) :
    message.advance? (message.toList.take n).length = some (message.read n).2 := by
  by_cases hempty : message.toList.take n = []
  · rw [read_of_take_eq_nil hempty, hempty]
    exact h hempty
  · have hle : ¬ message.length < (message.toList.take n).length := by
      rw [← length_toList, List.length_take]
      omega
    obtain ⟨rest, hrest⟩ := Option.ne_none_iff_exists'.mp (mt advance?_eq_none_iff.mp hle)
    rw [read, if_neg (by simpa using hempty), hrest]
    rfl

/-- Reading leaves the bytes behind those that were read. -/
theorem toList_read (message : Message) (n : Nat) :
    (message.read n).2.toList = message.toList.drop n := by
  by_cases hempty : message.toList.take n = []
  · rw [read_of_take_eq_nil hempty]
    have h := List.take_append_drop n message.toList
    rw [hempty, List.nil_append] at h
    exact h.symm
  · rw [toList_of_advance? (advance?_length_take fun h => absurd h hempty), List.length_take]
    rcases Nat.le_total n message.toList.length with hle | hle
    · rw [Nat.min_eq_left hle]
    · rw [Nat.min_eq_right hle, List.drop_length, List.drop_of_length_le hle]

/-- A message is empty if it has no bytes. -/
theorem isEmpty_iff {message : Message} : message.isEmpty ↔ message.toList = [] := by
  rw [isEmpty, beq_iff_eq, ← length_toList, List.length_eq_zero_iff]

/-- A buffer with room takes a byte of a message that has one. -/
theorem length_take_chunk_pos {message : Message} {n : Nat} (h : ¬ (n = 0 ∨ message.isEmpty)) :
    0 < (message.chunk.take n).length := by
  have hchunk : message.chunk ≠ [] := fun hnil =>
    h (Or.inr (isEmpty_iff.mpr (chunk_eq_nil_iff.mp hnil)))
  have hpos := List.length_pos_iff.mpr hchunk
  rw [List.length_take]
  omega

/-- Read piece by piece: each piece is what lies together at the front, as far as it fits, until the
buffer is full or no byte is left. -/
def readInSteps (message : Message) (n : Nat) : Option (List UInt8 × Message) :=
  if _h : n = 0 ∨ message.isEmpty then some ([], message)
  else
    let piece := message.chunk.take n
    (message.advance? piece.length).bind fun rest =>
      (readInSteps rest (n - piece.length)).map fun later => (piece ++ later.1, later.2)
termination_by n
decreasing_by
  have := length_take_chunk_pos _h
  omega

/-- Reading piece by piece reads the same bytes and never goes past the end. -/
theorem readInSteps_eq (message : Message) (n : Nat) :
    message.readInSteps n = some (message.read n) := by
  fun_induction readInSteps message n with
  | case1 message n h =>
    have hempty : message.toList.take n = [] := by
      rcases h with rfl | h
      · exact List.take_zero
      · rw [isEmpty_iff.mp h, List.take_nil]
    rw [read_of_take_eq_nil hempty]
  | case2 message n h piece ih =>
    have hpos : 0 < piece.length := length_take_chunk_pos h
    have hle : piece.length ≤ n := List.length_take_le n message.chunk
    have hn : piece.length + (n - piece.length) = n := Nat.add_sub_cancel' hle
    have hprefix : piece <+: message.toList :=
      (List.take_prefix n message.chunk).trans message.chunk_prefix
    have hlength : ¬ message.length < piece.length := by
      rw [← length_toList]
      exact Nat.not_lt.mpr hprefix.length_le
    obtain ⟨rest, hrest⟩ := Option.ne_none_iff_exists'.mp (mt advance?_eq_none_iff.mp hlength)
    have htake : message.toList.take n = piece ++ rest.toList.take (n - piece.length) := by
      rw [toList_of_advance? hrest, ← hn, List.take_add, ← List.prefix_iff_eq_take.mp hprefix,
        Nat.add_sub_cancel_left]
    have hnonempty : message.toList.take n ≠ [] := by
      rw [htake]
      exact List.append_ne_nil_of_left_ne_nil (List.length_pos_iff.mp hpos) _
    -- reading on from what is left is advancing, also where nothing more is read
    have hleft : (message.read n).2 = (rest.read (n - piece.length)).2 := by
      have hmessage := advance?_length_take fun h => absurd h hnonempty
      rw [htake, List.length_append, advance?_add, hrest, Option.bind_some,
        advance?_length_take fun _ => advance?_zero_of_advance? hrest] at hmessage
      exact (Option.some.inj hmessage).symm
    have hread : message.read n = (piece ++ (rest.read (n - piece.length)).1,
        (rest.read (n - piece.length)).2) := by
      rw [← hleft, read_fst, ← htake, ← read_fst]
    rw [hrest, Option.bind_some, ih rest, Option.map_some, hread]

/-! Movements -/

/-- What can be done with a message that is read from its front. -/
inductive Movement
  /-- Look at what lies together at the front. -/
  | chunk
  /-- Pass over a number of bytes. -/
  | advance (count : Nat)
  /-- Read into a buffer with room for a number of bytes. -/
  | read (room : Nat)
  /-- Look at what lies together at the front, as a buffered reader does. -/
  | fill
  /-- Pass over a number of bytes of a buffered reader. -/
  | consume (count : Nat)
  deriving DecidableEq, Repr

namespace Movement

/-- The most bytes that a movement passes. -/
def reach : Movement → Nat
  | chunk | fill => 0
  | advance count | read count | consume count => count

/-- The most bytes that movements pass one after the other. -/
def span : List Movement → Nat
  | [] => 0
  | movement :: later => movement.reach + span later

/-- What a movement delivers and the message behind it, unless it goes past the end. -/
def onMessage (message : Message) : Movement → Option (List UInt8 × Message)
  | chunk => some ([], message)
  | advance count | consume count => message.advanceInSteps count
  | read room => message.readInSteps room
  | fill => some ([], message.fill.2)

/-- Bytes at the front and those behind them, unless there are fewer. -/
def split? (bytes : List UInt8) (count : Nat) : Option (List UInt8 × List UInt8) :=
  if bytes.length < count then none else some (bytes.take count, bytes.drop count)

/-- What a movement over plain bytes delivers and the bytes behind it, unless it goes past the
end. -/
def onBytes (bytes : List UInt8) : Movement → Option (List UInt8 × List UInt8)
  | chunk | fill => some ([], bytes)
  | advance count | consume count => split? bytes count
  | read room => some (bytes.take room, bytes.drop room)

variable {State : Type}

/-- What movements deliver one after the other and what is left in the end, unless one of them goes
past the end. -/
def run (move : State → Movement → Option (List UInt8 × State)) :
    State → List Movement → Option (List UInt8 × State)
  | state, [] => some ([], state)
  | state, movement :: later =>
    (move state movement).bind fun now =>
      (run move now.2 later).map fun last => (now.1 ++ last.1, last.2)

/-- Advancing passes the bytes at the front, if there are so many. -/
theorem map_advanceInSteps (message : Message) (count : Nat) :
    (message.advanceInSteps count).map (Prod.map id toList) = split? message.toList count := by
  rw [advanceInSteps_eq, split?, length_toList]
  cases hrest : message.advance? count with
  | none => rw [if_pos (advance?_eq_none_iff.mp hrest), Option.map_none, Option.map_none]
  | some rest =>
    have hle : ¬ message.length < count := fun hlt => by
      rw [advance?_eq_none_iff.mpr hlt] at hrest
      cases hrest
    rw [if_neg hle, ← toList_of_advance? hrest]
    rfl

/-- A movement over a message is one over its bytes. -/
theorem map_onMessage (message : Message) (movement : Movement) :
    (movement.onMessage message).map (Prod.map id toList) = movement.onBytes message.toList := by
  cases movement with
  | chunk => rfl
  | advance count => exact map_advanceInSteps message count
  | read room =>
    rw [onMessage, readInSteps_eq, onBytes, Option.map_some, Prod.map, read_fst, toList_read]
    rfl
  | fill =>
    rw [onMessage, onBytes, Option.map_some, Prod.map, Message.fill, toList, flatten_dropEmpty]
    rfl
  | consume count => exact map_advanceInSteps message count

/-- Movements over a message are movements over its bytes. -/
theorem map_run (message : Message) (movements : List Movement) :
    (run onMessage message movements).map (Prod.map id toList)
      = run onBytes message.toList movements := by
  induction movements generalizing message with
  | nil => rfl
  | cons movement later ih =>
    rw [run, run, ← map_onMessage]
    cases movement.onMessage message with
    | none => rfl
    | some now =>
      rw [Option.bind_some, Option.map_some, Option.bind_some, Option.map_map, Prod.map, ← ih,
        Option.map_map]
      rfl

/-- Bytes that are split are put together again. -/
theorem append_of_split? {bytes front back : List UInt8} {count : Nat}
    (h : split? bytes count = some (front, back)) : front ++ back = bytes := by
  rw [split?] at h
  by_cases hlt : bytes.length < count
  · rw [if_pos hlt] at h
    cases h
  · rw [if_neg hlt] at h
    cases h
    exact List.take_append_drop count bytes

/-- A movement over bytes delivers the front of them and leaves the others. -/
theorem append_of_onBytes {bytes front back : List UInt8} {movement : Movement}
    (h : movement.onBytes bytes = some (front, back)) : front ++ back = bytes := by
  cases movement with
  | chunk | fill =>
    cases h
    rfl
  | advance count | consume count => exact append_of_split? h
  | read room =>
    cases h
    exact List.take_append_drop room bytes

/-- Movements over bytes deliver the front of them and leave the others. -/
theorem append_of_run_onBytes {bytes front back : List UInt8} {movements : List Movement}
    (h : run onBytes bytes movements = some (front, back)) : front ++ back = bytes := by
  induction movements generalizing bytes front with
  | nil =>
    cases h
    rfl
  | cons movement later ih =>
    obtain ⟨⟨piece, rest⟩, hnow, h⟩ := Option.bind_eq_some_iff.mp h
    obtain ⟨⟨pieces, last⟩, hlater, h⟩ := Option.map_eq_some_iff.mp h
    cases h
    rw [List.append_assoc, ih hlater, append_of_onBytes hnow]

/-- A movement that stays within the bytes passes as many as it may. -/
theorem onBytes_of_reach_le {bytes : List UInt8} {movement : Movement}
    (h : movement.reach ≤ bytes.length) :
    movement.onBytes bytes = some (bytes.take movement.reach, bytes.drop movement.reach) := by
  cases movement with
  | chunk | fill => rfl
  | advance count | consume count => exact if_neg (Nat.not_lt.mpr h)
  | read room => rfl

/-- Movements that stay within the bytes together pass as many as they may. -/
theorem run_onBytes_of_span_le {bytes : List UInt8} {movements : List Movement}
    (h : span movements ≤ bytes.length) :
    run onBytes bytes movements
      = some (bytes.take (span movements), bytes.drop (span movements)) := by
  induction movements generalizing bytes with
  | nil => rfl
  | cons movement later ih =>
    rw [span] at h ⊢
    have hlater : span later ≤ (bytes.drop movement.reach).length := by
      rw [List.length_drop]
      omega
    rw [run, onBytes_of_reach_le (by omega), Option.bind_some, ih hlater, Option.map_some,
      List.take_add, List.drop_drop]

end Movement

/-- A message behaves as a cursor over the plain list of its bytes. A patched message has the bytes
of the buffer with the offset in place of the placeholder. What a reader is shown is the front of
what remains, and something is shown unless nothing remains. Advancing fails exactly past the end;
advancing and reading, which go from segment to segment, are one step over the bytes. Whatever is
done one after the other, what was delivered and what remains are the bytes that there were, and
nothing fails that stays within them. -/
theorem cursor_refines_bytes :
    (∀ (buffer : List UInt8) (position offset : Nat), position + 4 ≤ buffer.length →
      IsPatch buffer position offset (patched buffer position offset).toList) ∧
    (∀ message : Message, message.length = message.toList.length ∧
      message.chunk <+: message.toList ∧ (message.chunk = [] ↔ message.length = 0) ∧
      message.fill.1 = message.chunk ∧ message.fill.2.chunk = message.chunk ∧
      message.fill.2.toList = message.toList) ∧
    (∀ (message : Message) (n : Nat),
      (message.advance? n = none ↔ message.length < n) ∧
      message.advanceInSteps n
        = (message.advance? n).map (fun rest => (message.toList.take n, rest)) ∧
      message.readInSteps n = some (message.read n)) ∧
    (∀ (message : Message) (movements : List Movement),
      (Movement.run Movement.onMessage message movements).map (Prod.map id toList)
        = Movement.run Movement.onBytes message.toList movements ∧
      (∀ delivered rest,
        Movement.run Movement.onMessage message movements = some (delivered, rest) →
          delivered ++ rest.toList = message.toList) ∧
      (Movement.span movements ≤ message.length → ∃ delivered rest,
        Movement.run Movement.onMessage message movements = some (delivered, rest) ∧
          delivered.length = Movement.span movements ∧
          delivered ++ rest.toList = message.toList)) := by
  have hdelivered {message : Message} {movements : List Movement} {delivered : List UInt8}
      {rest : Message}
      (h : Movement.run Movement.onMessage message movements = some (delivered, rest)) :
      delivered ++ rest.toList = message.toList := by
    have hbytes := Movement.map_run message movements
    rw [h] at hbytes
    exact Movement.append_of_run_onBytes hbytes.symm
  refine ⟨fun buffer position offset h => isPatch_patched h offset, fun message => ?_,
    fun message n => ?_, fun message movements => ?_⟩
  · refine ⟨message.length_toList.symm, message.chunk_prefix, ?_, rfl, message.chunk_fill,
      flatten_dropEmpty message.segments⟩
    rw [chunk_eq_nil_iff, ← length_toList, List.length_eq_zero_iff]
  · exact ⟨advance?_eq_none_iff, advanceInSteps_eq message n, readInSteps_eq message n⟩
  · refine ⟨Movement.map_run message movements, fun delivered rest => hdelivered, fun h => ?_⟩
    rw [← length_toList] at h
    have hbytes := (Movement.map_run message movements).trans (Movement.run_onBytes_of_span_le h)
    obtain ⟨⟨delivered, rest⟩, hrun, hpair⟩ := Option.map_eq_some_iff.mp hbytes
    have htake : delivered = message.toList.take (Movement.span movements) :=
      congrArg Prod.fst hpair
    refine ⟨delivered, rest, hrun, ?_, hdelivered hrun⟩
    rw [htake, List.length_take_of_le h]

namespace Sample

/-- A placeholder that nothing stands before, so that the first segment is empty. -/
def unheaded : Message :=
  patched [0, 0, 0, 0, 7, 8, 9] 0 513

/-- Movements that stop inside of the offset, at its end and behind it. -/
def movements : List Movement :=
  [.chunk, .read 3, .fill, .consume 1, .advance 2]

end Sample

/-- A message whose first segment is empty, with movements that leave its last byte. -/
theorem cursor_refines_bytes_unheaded :
    IsPatch [0, 0, 0, 0, 7, 8, 9] 0 513 Sample.unheaded.toList ∧
      Sample.unheaded.segments = [[], [1, 2, 0, 0], [7, 8, 9]] ∧
      Sample.unheaded.chunk = [1, 2, 0, 0] ∧
      Sample.unheaded.advance? 8 = none ∧
      ∃ rest, Movement.run Movement.onMessage Sample.unheaded Sample.movements
          = some ([1, 2, 0, 0, 7, 8], rest) ∧ rest.toList = [9] := by
  obtain ⟨hpatch, -, hadvance, hrun⟩ := cursor_refines_bytes
  obtain ⟨-, happend, hwithin⟩ := hrun Sample.unheaded Sample.movements
  obtain ⟨delivered, rest, hdelivered, hlength, -⟩ := hwithin (by decide)
  have hall : delivered ++ rest.toList = [1, 2, 0, 0, 7, 8] ++ [9] :=
    happend delivered rest hdelivered
  obtain ⟨hfront, hback⟩ := List.append_inj hall hlength
  refine ⟨hpatch _ 0 513 (by decide), rfl, rfl, (hadvance _ 8).1.mpr (by decide), rest, ?_, hback⟩
  rw [hdelivered, hfront]

end Message

end SchemaWire
