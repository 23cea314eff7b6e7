import Mathlib.Data.List.TakeWhile
import PieceEmu.Debug.GdbRobust
import PieceEmu.Lib.Scanner

/-!
# The packets of a byte stream

The receive loop of `serve` appends the result of each `recv` to a buffer and reads
packets, acknowledgements and Ctrl-C off its front: it is a scanner
(`RspLoop.scanner`), so how the stream is cut into pieces does not matter to it. What
matters is how a piece gets into the buffer. It is appended as a C string, so the bytes
behind the first NUL of a piece are lost (`RspLoop.lost`); a stream that arrives one byte
at a time loses its NULs and nothing else.

Fragmentation can be noticed exactly when a lost byte would have had an effect
(`RspLoop.framing_iff`):

| the loop, at the NUL | a lost byte has an effect |
|---|---|
| inside a packet, or its checksum | whatever it is |
| between packets | if it opens a packet, or is a Ctrl-C |
| left by an exception | never |
-/

open CText

/-! ### The loop -/

/-- What `handle_packet`, the debugger and the CPU see of the loop. -/
inductive RspEvent
  /-- A packet goes to `handle_packet`. -/
  | payload (data : List U8)
  /-- `+` is sent. -/
  | ack
  /-- Ctrl-C is taken. -/
  | interrupt
  deriving DecidableEq

/-- What the loop finds at the front of the buffer. -/
inductive RspToken
  /-- An acknowledgement, or a byte outside a packet. -/
  | skip
  | interrupt
  | packet (data : List U8)
  deriving DecidableEq

/-- The loop, without its buffer. -/
structure RspLoop (D : Type) where
  session : RspSession D
  events : List RspEvent := []
  /-- Why `handle_packet` has not come back, if it has not. -/
  stop : Option RspStop := none

namespace RspLoop

/-- The front of the buffer: nothing, if there is an incomplete packet. -/
def nextToken (buf : List U8) : Option (RspToken × List U8) :=
  match buf with
  | [] => none
  | c :: rest =>
    if c = ch '+' ∨ c = ch '-' then some (.skip, rest)
    else if c = 3 then some (.interrupt, rest)
    else if c = ch '$' then
      match findFrom buf (ch '#') 1 with
      | none => none
      | some hash =>
        if buf.length ≤ hash + 2 then none
        else some (.packet ((buf.drop 1).take (hash - 1)), buf.drop (hash + 3))
    else some (.skip, rest)

/-- The string that a text with a terminator behind it is. -/
def cString (s : List U8) : List U8 := s.takeWhile (· ≠ 0)

variable {D : Type} (io : IoSpace D)
  (run : Bool → GdbRsp D → Option (GdbRsp D × List U8))

/-- Ctrl-C: the CPU is halted, and the debugger is told. -/
def interrupted (s : RspSession D) : RspSession D :=
  { s with
    server := { s.server with machine := s.server.machine.mapCpu ({ · with inHalt := true }) }
    replies := s.replies ++ [rspPacket (str "T02thread:1;")] }

/-- What the loop does with a token. A packet is acknowledged before it is handled. -/
def act (s : RspLoop D) : RspToken → RspLoop D
  | .skip => s
  | .interrupt =>
    { s with session := interrupted s.session, events := s.events ++ [.interrupt] }
  | .packet data =>
    let acks := if s.session.server.noAckMode then [] else [.ack]
    let events := s.events ++ (acks ++ [.payload data])
    match (RspM.handlePacket io run data).run s.session with
    | .ok () session => { s with session, events }
    | .error e session => { session, events, stop := some e }

/-- `handle_packet` has not come back. -/
def halted (s : RspLoop D) : Bool := s.stop.isSome

/-! ### The scanner -/

/-- A packet without its `#` is incomplete. -/
theorem nextToken_open {t : List U8} (h : ch '#' ∉ t) : nextToken (ch '$' :: t) = none := by
  have hfind : findFrom (ch '$' :: t) (ch '#') 1 = none := by
    rw [findFrom, Option.map_eq_none_iff, List.findIdx?_eq_none_iff]
    intro c hc
    exact decide_eq_false fun heq => h (heq ▸ hc)
  rw [nextToken, if_neg (by decide), if_neg (by decide), if_pos rfl, hfind]

/-- A packet is complete with the two digits behind its `#`. -/
theorem nextToken_closed {u : List U8} (h : ch '#' ∉ u) (v : List U8) :
    nextToken (ch '$' :: (u ++ ch '#' :: v)) =
      if v.length < 2 then none else some (.packet u, v.drop 2) := by
  have hfind : findFrom (ch '$' :: (u ++ ch '#' :: v)) (ch '#') 1 = some (u.length + 1) := by
    have hidx : (u ++ ch '#' :: v).findIdx? (· = ch '#') = some u.length := by
      have hnone : u.findIdx? (· = ch '#') = none :=
        List.findIdx?_eq_none_iff.mpr fun c hc =>
          decide_eq_false fun heq : c = ch '#' => h (heq ▸ hc)
      rw [List.findIdx?_append, hnone, List.findIdx?_cons, if_pos (decide_eq_true rfl),
        Option.none_or]
      exact congrArg some (Nat.zero_add _)
    rw [findFrom, List.drop_succ_cons, List.drop_zero, hidx, Option.map_some, Nat.add_comm]
  rw [nextToken, if_neg (by decide), if_neg (by decide), if_pos rfl, hfind]
  dsimp only
  refine if_congr ?_ rfl ?_
  · rw [List.length_cons, List.length_append, List.length_cons]
    omega
  · rw [List.drop_succ_cons, List.drop_zero, Nat.add_sub_cancel, List.take_left,
      List.drop_succ_cons, List.drop_append, List.drop_eq_nil_of_le (by omega), List.nil_append,
      show u.length + 1 + 2 - u.length = 3 by omega, List.drop_succ_cons]

/-- Any byte but `$` is a token of its own. -/
theorem nextToken_byte {c : U8} (h : c ≠ ch '$') (t : List U8) :
    nextToken (c :: t) = some (if c = 3 then .interrupt else .skip, t) := by
  rw [nextToken]
  by_cases hc : c = ch '+' ∨ c = ch '-'
  · have h3 : c ≠ 3 := by
      rintro rfl
      exact absurd hc (by decide)
    rw [if_pos hc, if_neg h3]
  · rw [if_neg hc, if_neg h]
    split_ifs <;> rfl

/-- **The cases of the front of a buffer.** -/
theorem buffer_cases {motive : List U8 → Prop} (nil : motive [])
    (byte : ∀ c t, c ≠ ch '$' → motive (c :: t))
    (opened : ∀ t, ch '#' ∉ t → motive (ch '$' :: t))
    (closed : ∀ u v, ch '#' ∉ u → motive (ch '$' :: (u ++ ch '#' :: v))) (b : List U8) :
    motive b := by
  cases b with
  | nil => exact nil
  | cons c t =>
    by_cases hc : c = ch '$'
    · subst hc
      by_cases ht : ch '#' ∈ t
      · obtain ⟨u, v, rfl, hu⟩ := List.eq_append_cons_of_mem ht
        exact closed u v hu
      · exact opened t ht
    · exact byte c t hc

/-- **The receive loop as a scanner.** -/
def scanner : Scanner U8 RspToken where
  next := nextToken
  next_length {b a r} h := by
    induction b using buffer_cases with
    | nil => nomatch h
    | byte c t hc =>
      rw [nextToken_byte hc] at h
      obtain ⟨-, rfl⟩ := Prod.mk.inj (Option.some.inj h)
      exact Nat.lt_succ_self _
    | opened t ht =>
      rw [nextToken_open ht] at h
      nomatch h
    | closed u v hu =>
      rw [nextToken_closed hu] at h
      split_ifs at h
      obtain ⟨-, rfl⟩ := Prod.mk.inj (Option.some.inj h)
      rw [List.length_drop, List.length_cons, List.length_append, List.length_cons]
      omega
  next_append {b a r} x h := by
    induction b using buffer_cases with
    | nil => nomatch h
    | byte c t hc =>
      rw [nextToken_byte hc] at h
      obtain ⟨rfl, rfl⟩ := Prod.mk.inj (Option.some.inj h)
      exact nextToken_byte hc (t ++ x)
    | opened t ht =>
      rw [nextToken_open ht] at h
      nomatch h
    | closed u v hu =>
      rw [nextToken_closed hu] at h
      split_ifs at h with hv
      obtain ⟨rfl, rfl⟩ := Prod.mk.inj (Option.some.inj h)
      have hlen : ¬(v ++ x).length < 2 := by
        rw [List.length_append]
        omega
      have happ : ch '$' :: (u ++ ch '#' :: v) ++ x = ch '$' :: (u ++ ch '#' :: (v ++ x)) := by
        rw [List.cons_append, List.append_assoc, List.cons_append]
      rw [happ, nextToken_closed hu, if_neg hlen, List.drop_append_of_le_length (by omega)]

/-- Bytes behind each other in the buffer. -/
abbrev feed (p : RspLoop D × List U8) (x : List U8) : RspLoop D × List U8 :=
  scanner.feed halted (act io run) p x

/-- **One result of `recv`**: the string it makes is appended to the buffer, and the loop
reads off what is complete. -/
def recv (p : RspLoop D × List U8) (chunk : List U8) : RspLoop D × List U8 :=
  feed io run p (cString chunk)

/-- The loop of a new client. -/
def start (session : RspSession D) : RspLoop D × List U8 := ({ session }, [])

/-- A stream, one byte at a time. -/
def bytewise (chunks : List (List U8)) : List (List U8) := chunks.flatten.map ([·])

/-! ### What the loop has done -/

variable {io run} {s : RspLoop D}

/-- What is recorded of a packet. -/
def packetEvents (s : RspLoop D) (data : List U8) : List RspEvent :=
  (if s.session.server.noAckMode then [] else [.ack]) ++ [.payload data]

theorem act_packet_events (data : List U8) :
    (act io run s (.packet data)).events = s.events ++ packetEvents s data := by
  rw [act]
  split <;> rfl

/-- What has happened stays. -/
theorem prefix_act_events (a : RspToken) : s.events <+: (act io run s a).events := by
  cases a with
  | skip => exact List.prefix_refl _
  | interrupt => exact List.prefix_append _ _
  | packet data =>
    rw [act_packet_events]
    exact List.prefix_append _ _

theorem prefix_consume_events (s : RspLoop D) (b : List U8) :
    s.events <+: (scanner.consume halted (act io run) s b).1.events :=
  scanner.consume_invariant _ _ (I := fun s' => s.events <+: s'.events)
    (fun _ a _ h => h.trans (prefix_act_events a)) s b (List.prefix_refl _)

variable (io run)

/-- The events of a complete packet are the next ones. -/
theorem prefix_of_packet (hs : halted s = false) {b data r : List U8}
    (h : nextToken b = some (.packet data, r)) :
    s.events ++ packetEvents s data <+:
      (scanner.consume halted (act io run) s b).1.events := by
  rw [scanner.consume_some hs (show scanner.next b = _ from h), ← act_packet_events]
  exact prefix_consume_events _ r

/-- A packet is noticed. -/
theorem events_ne_of_packet (hs : halted s = false) {b data r : List U8}
    (h : nextToken b = some (.packet data, r)) :
    (scanner.consume halted (act io run) s b).1.events ≠ s.events := by
  intro heq
  have hlen := (heq ▸ prefix_of_packet io run hs h).length_le
  rw [packetEvents, List.length_append, List.length_append, List.length_singleton] at hlen
  omega

/-- What begins with `$` is a packet, or waits. -/
theorem nextToken_dollar (t : List U8) :
    nextToken (ch '$' :: t) = none ∨ ∃ u r, nextToken (ch '$' :: t) = some (.packet u, r) := by
  by_cases ht : ch '#' ∈ t
  · obtain ⟨u, v, rfl, hu⟩ := List.eq_append_cons_of_mem ht
    have hnext := nextToken_closed hu v
    split_ifs at hnext
    · exact .inl hnext
    · exact .inr ⟨u, _, hnext⟩
  · exact .inl (nextToken_open ht)

theorem consume_dollar (hs : halted s = false) (t : List U8) :
    scanner.consume halted (act io run) s (ch '$' :: t) = (s, ch '$' :: t) ∨
      (scanner.consume halted (act io run) s (ch '$' :: t)).1.events ≠ s.events := by
  rcases nextToken_dollar t with hnext | ⟨u, r, hnext⟩
  · exact .inl (scanner.consume_none hs hnext)
  · exact .inr (events_ne_of_packet io run hs hnext)

/-! ### Bytes without an effect -/

/-- **No byte of `l` has an effect** on the loop. -/
def Ineffective (q : RspLoop D × List U8) (l : List U8) : Prop :=
  l = [] ∨ halted q.1 = true ∨ (q.2 = [] ∧ ∀ c ∈ l, c ≠ ch '$' ∧ c ≠ 3)

theorem feed_of_ineffective {q : RspLoop D × List U8} {l : List U8}
    (hq : scanner.Settled halted (act io run) q) (h : Ineffective q l) :
    feed io run q l = q := by
  rcases h with rfl | hhalt | ⟨hbuf, hl⟩
  · exact hq
  · have hbuf : q.2 = [] := by
      rcases hq.pending with h | h
      · exact h.2
      · exact absurd hhalt (by rw [h.1]; decide)
    exact (scanner.consume_halted hhalt).trans (Prod.ext rfl hbuf.symm)
  · obtain ⟨s, b⟩ := q
    obtain rfl : b = [] := hbuf
    cases hs : halted s with
    | true => exact scanner.consume_halted hs
    | false =>
      show scanner.consume halted (act io run) s l = _
      induction l with
      | nil => rfl
      | cons c l ih =>
        obtain ⟨⟨hdollar, h3⟩, hrest⟩ := List.forall_mem_cons.mp hl
        have hnext : scanner.next (c :: l) = some (if c = 3 then .interrupt else .skip, l) :=
          nextToken_byte hdollar l
        rw [if_neg h3] at hnext
        rw [scanner.consume_some hs hnext]
        exact ih hrest

/-- Between packets, a `$` or a Ctrl-C waits or is noticed. -/
theorem consume_effective (hs : halted s = false) {l : List U8}
    (h : ∃ c ∈ l, c = ch '$' ∨ c = 3) :
    (∃ t, scanner.consume halted (act io run) s l = (s, ch '$' :: t)) ∨
      (scanner.consume halted (act io run) s l).1.events ≠ s.events := by
  induction l with
  | nil => simp at h
  | cons c l ih =>
    by_cases hdollar : c = ch '$'
    · subst hdollar
      exact (consume_dollar io run hs l).imp_left fun h => ⟨l, h⟩
    · have hnext : scanner.next (c :: l) = some (if c = 3 then .interrupt else .skip, l) :=
        nextToken_byte hdollar l
      by_cases h3 : c = 3
      · right
        rw [if_pos h3] at hnext
        rw [scanner.consume_some hs hnext]
        intro heq
        have hlen := (heq ▸ prefix_consume_events (act io run s .interrupt) l).length_le
        rw [act, List.length_append, List.length_singleton] at hlen
        omega
      · rw [if_neg h3] at hnext
        rw [scanner.consume_some hs hnext]
        obtain ⟨d, hd, hor⟩ := h
        rcases List.mem_cons.mp hd with rfl | hd
        · exact absurd hor (not_or.mpr ⟨hdollar, h3⟩)
        · exact ih ⟨d, hd, hor⟩

/-- The buffer of a loop that waits begins with `$`, if anything is in it. -/
theorem eq_dollar_of_pending {b : List U8} (h : nextToken b = none) (hb : b ≠ []) :
    ∃ t, b = ch '$' :: t := by
  cases b with
  | nil => exact absurd rfl hb
  | cons c t =>
    by_cases hc : c = ch '$'
    · exact ⟨t, hc ▸ rfl⟩
    · rw [nextToken_byte hc] at h
      nomatch h

/-- **An effect is noticed**, at once or in the buffer. -/
theorem feed_of_effective {q : RspLoop D × List U8} {l : List U8}
    (hq : scanner.Settled halted (act io run) q) (h : ¬Ineffective q l) :
    (feed io run q l).1.events ≠ q.1.events ∨
      halted q.1 = false ∧ nextToken q.2 = none ∧
        ∃ t, feed io run q l = (q.1, ch '$' :: t) ∧ q.2 <+: ch '$' :: t ∧ q.2 ≠ ch '$' :: t := by
  obtain ⟨hl, hhalt, heff⟩ : l ≠ [] ∧ ¬halted q.1 = true ∧ ¬(q.2 = [] ∧ _) := by
    simpa only [Ineffective, not_or] using h
  obtain ⟨hs, hnext⟩ := hq.pending.resolve_left fun h => hhalt h.1
  obtain ⟨s, b⟩ := q
  by_cases hb : b = []
  · subst hb
    have hex : ∃ c ∈ l, c = ch '$' ∨ c = 3 := by
      by_contra hno
      push Not at hno
      exact heff ⟨rfl, hno⟩
    rcases consume_effective io run hs hex with ⟨t, ht⟩ | hne
    · exact .inr ⟨hs, hnext, t, ht, List.nil_prefix, nofun⟩
    · exact .inl hne
  · obtain ⟨t, rfl⟩ := eq_dollar_of_pending hnext hb
    rcases consume_dollar io run hs (t ++ l) with hwait | hne
    · refine .inr ⟨hs, hnext, t ++ l, hwait, List.prefix_append _ l, fun heq => hl ?_⟩
      exact List.append_right_eq_self.mp (List.cons.inj heq).2.symm
    · exact .inl hne

/-! ### Telling two buffers apart -/

/-- The first `#` of a text is in one place. -/
theorem first_hash_unique {u u' v v' : List U8} (hu : ch '#' ∉ u) (hu' : ch '#' ∉ u')
    (h : u ++ ch '#' :: v = u' ++ ch '#' :: v') : u = u' ∧ v = v' := by
  induction u generalizing u' with
  | nil =>
    cases u' with
    | nil => exact ⟨rfl, (List.cons.inj h).2⟩
    | cons c u' => exact absurd (List.mem_cons.mpr (.inl (List.cons.inj h).1)) hu'
  | cons c u ih =>
    cases u' with
    | nil => exact absurd (List.mem_cons.mpr (.inl (List.cons.inj h).1.symm)) hu
    | cons c' u' =>
      obtain ⟨rfl, htail⟩ := List.cons.inj h
      obtain ⟨rfl, hv⟩ := ih (fun hm => hu (List.mem_cons_of_mem _ hm))
        (fun hm => hu' (List.mem_cons_of_mem _ hm)) htail
      exact ⟨rfl, hv⟩

/-- The packet at the end of a buffer, complete. -/
theorem consume_packet (hs : halted s = false) {u : List U8} (hu : ch '#' ∉ u) (c d : U8) :
    (scanner.consume halted (act io run) s (ch '$' :: (u ++ [ch '#', c, d]))).1.events =
      s.events ++ packetEvents s u := by
  have hnext : scanner.next (ch '$' :: (u ++ [ch '#', c, d])) = some (.packet u, []) :=
    (nextToken_closed hu [c, d]).trans (if_neg (Nat.lt_irrefl 2))
  rw [scanner.consume_some hs hnext]
  exact act_packet_events u

/-- Nothing happens while a packet is incomplete. -/
theorem consume_waits (hs : halted s = false) {b : List U8} (h : nextToken b = none) :
    (scanner.consume halted (act io run) s b).1.events = s.events := by
  rw [scanner.consume_none hs (show scanner.next b = none from h)]

/-- A Ctrl-C is not what a packet looks like. -/
theorem not_prefix_interrupt (data : List U8) :
    ¬packetEvents s data <+: [RspEvent.interrupt] := by
  rw [packetEvents]
  split_ifs
  · rw [List.nil_append, List.cons_prefix_cons]
    exact fun h => nomatch h.1
  · rw [List.singleton_append, List.cons_prefix_cons]
    exact fun h => nomatch h.1

/-- **Different buffers are told apart** by what arrives later, where one is what the other
has begun with. -/
theorem exists_noticed (hs : halted s = false) {b t' : List U8} (hb : nextToken b = none)
    (hb' : nextToken (ch '$' :: t') = none) (hpre : b <+: ch '$' :: t')
    (hne : b ≠ ch '$' :: t') :
    ∃ w, 0 ∉ w ∧ (scanner.consume halted (act io run) s (b ++ w)).1.events ≠
      (scanner.consume halted (act io run) s (ch '$' :: t' ++ w)).1.events := by
  by_cases hnil : b = []
  · -- a Ctrl-C is taken between packets, and part of a packet inside one
    subst hnil
    refine ⟨[3], by decide, fun heq => ?_⟩
    have hnext : scanner.next ([] ++ [(3 : U8)]) = some (.interrupt, []) := rfl
    have htaken : (scanner.consume halted (act io run) s ([] ++ [3])).1.events =
        s.events ++ [.interrupt] := by
      rw [scanner.consume_some hs hnext]
      rfl
    rw [htaken, List.cons_append] at heq
    rcases nextToken_dollar (t' ++ [3]) with hwait | ⟨u, r, hpacket⟩
    · rw [consume_waits io run hs hwait] at heq
      exact absurd (List.append_right_eq_self.mp heq) nofun
    · have hprefix := prefix_of_packet io run hs hpacket
      rw [← heq] at hprefix
      exact not_prefix_interrupt u ((List.prefix_append_right_inj _).mp hprefix)
  · obtain ⟨t, rfl⟩ := eq_dollar_of_pending hb hnil
    obtain ⟨e, rfl⟩ : t <+: t' := (List.cons_prefix_cons.mp hpre).2
    have he : e ≠ [] := by
      rintro rfl
      exact hne (by rw [List.append_nil])
    by_cases hhash : ch '#' ∈ t ++ e
    · -- the longer buffer needs fewer digits
      obtain ⟨u, v, huv, hu⟩ := List.eq_append_cons_of_mem hhash
      have hv : v.length < 2 := by
        by_contra hv
        rw [huv, nextToken_closed hu, if_neg hv] at hb'
        nomatch hb'
      refine ⟨List.replicate (2 - v.length) (ch '0'), fun h => ?_, fun heq => ?_⟩
      · exact absurd (List.eq_of_mem_replicate h) (by decide)
      · set w := List.replicate (2 - v.length) (ch '0') with hw
        have hwlen : w.length = 2 - v.length := List.length_replicate
        -- the shorter buffer waits: it has no `#` yet, or more bytes behind it are wanted
        have hshort : nextToken (ch '$' :: t ++ w) = none := by
          rw [List.cons_append]
          by_cases ht : ch '#' ∈ t
          · obtain ⟨u₂, v₂, rfl, hu₂⟩ := List.eq_append_cons_of_mem ht
            rw [List.append_assoc, List.cons_append] at huv
            obtain ⟨rfl, rfl⟩ := first_hash_unique hu₂ hu huv
            have hepos := List.length_pos_iff.mpr he
            rw [List.length_append] at hwlen hv
            rw [List.append_assoc, List.cons_append, nextToken_closed hu₂, if_pos]
            rw [List.length_append, hwlen]
            omega
          · refine nextToken_open fun h => ?_
            rcases List.mem_append.mp h with h | h
            · exact ht h
            · exact absurd (List.eq_of_mem_replicate h) (by decide)
        have hlong : ∃ r, nextToken (ch '$' :: (t ++ e) ++ w) = some (.packet u, r) := by
          refine ⟨(v ++ w).drop 2, ?_⟩
          rw [huv, List.cons_append, List.append_assoc, List.cons_append, nextToken_closed hu,
            if_neg]
          rw [List.length_append, hwlen]
          omega
        obtain ⟨r, hlong⟩ := hlong
        rw [consume_waits io run hs hshort] at heq
        exact events_ne_of_packet io run hs hlong heq.symm
    · -- both are completed, and the packets differ
      have ht : ch '#' ∉ t := fun h => hhash (List.mem_append_left e h)
      refine ⟨[ch '#', ch '0', ch '0'], by decide, fun heq => ?_⟩
      rw [List.cons_append, List.cons_append, consume_packet io run hs ht,
        consume_packet io run hs hhash] at heq
      have hevents := List.append_cancel_left heq
      rw [packetEvents, packetEvents, List.append_cancel_left_eq, List.cons.injEq,
        RspEvent.payload.injEq] at hevents
      exact he (List.self_eq_append_right.mp hevents.1)

/-! ### Pieces of a stream -/

/-- What a piece loses: the bytes behind its first NUL, other than NULs. -/
def lost (chunk : List U8) : List U8 := (chunk.dropWhile (· ≠ 0)).filter (· ≠ 0)

/-- There is no NUL in a string. -/
theorem filter_cString (chunk : List U8) : (cString chunk).filter (· ≠ 0) = cString chunk :=
  List.filter_eq_self.mpr fun _ hc => List.mem_takeWhile_imp (p := fun c => decide (c ≠ 0)) hc

/-- A piece without its NULs: what gets into the buffer, and what is lost. -/
theorem filter_eq_append_lost (chunk : List U8) :
    chunk.filter (· ≠ 0) = cString chunk ++ lost chunk := by
  conv_lhs => rw [← List.takeWhile_append_dropWhile (p := (· ≠ 0)) (l := chunk)]
  rw [List.filter_append]
  exact congrArg (· ++ lost chunk) (filter_cString chunk)

/-- A byte on its own gets into the buffer, unless it is a NUL. -/
theorem flatten_cString_bytes (bytes : List U8) :
    ((bytes.map ([·])).map cString).flatten = bytes.filter (· ≠ 0) := by
  induction bytes with
  | nil => rfl
  | cons c bytes ih =>
    rw [List.map_cons, List.map_cons, List.flatten_cons, ih, List.filter_cons, cString,
      List.takeWhile_cons]
    split <;> rfl

variable {p : RspLoop D × List U8}

theorem exec_recv (hp : scanner.Settled halted (act io run) p) (chunks : List (List U8)) :
    ActionRun.exec (recv io run) p chunks = feed io run p (chunks.map cString).flatten := by
  rw [feed, ← scanner.exec_feed hp, ActionRun.exec, ActionRun.exec, List.foldl_map]
  rfl

/-- **A piece and its bytes**: the loop that has read the bytes one at a time has also
read what the piece loses. -/
theorem exec_bytes (hp : scanner.Settled halted (act io run) p) (chunk : List U8) :
    ActionRun.exec (recv io run) p (chunk.map ([·])) =
      feed io run (recv io run p chunk) (lost chunk) := by
  rw [exec_recv io run hp, flatten_cString_bytes, filter_eq_append_lost, feed, feed,
    scanner.feed_append]
  rfl

/-- The bytes in front of the first NUL are read as they come. -/
theorem exec_kept (hp : scanner.Settled halted (act io run) p) (chunk : List U8) :
    ActionRun.exec (recv io run) p ((cString chunk).map ([·])) = recv io run p chunk := by
  rw [exec_recv io run hp, flatten_cString_bytes, filter_cString]
  rfl

/-- **The piece is intact**: what it loses has no effect on the loop that has read, one
byte at a time, what is in front of the NUL. -/
def Intact (p : RspLoop D × List U8) (chunk : List U8) : Prop :=
  Ineffective (ActionRun.exec (recv io run) p ((cString chunk).map ([·]))) (lost chunk)

/-- **The same events**, whatever arrives later. -/
def SameEvents (p q : RspLoop D × List U8) : Prop :=
  ∀ later, (ActionRun.exec (recv io run) p later).1.events =
    (ActionRun.exec (recv io run) q later).1.events

/-- An intact piece leaves the loop where its bytes leave it. -/
theorem recv_of_intact (hp : scanner.Settled halted (act io run) p) {chunk : List U8}
    (h : Intact io run p chunk) :
    ActionRun.exec (recv io run) p (chunk.map ([·])) = recv io run p chunk := by
  rw [Intact, exec_kept io run hp] at h
  rw [exec_bytes io run hp]
  exact feed_of_ineffective io run (scanner.settled_feed _ _ p _) h

/-- **One piece**: it is intact exactly where it cannot be told from its bytes. -/
theorem sameEvents_iff (hp : scanner.Settled halted (act io run) p) (chunk : List U8) :
    SameEvents io run (recv io run p chunk) (ActionRun.exec (recv io run) p (chunk.map ([·]))) ↔
      Intact io run p chunk := by
  constructor
  · intro hsame
    rw [exec_bytes io run hp] at hsame
    rw [Intact, exec_kept io run hp]
    by_contra heff
    have hsettled : scanner.Settled halted (act io run) (recv io run p chunk) :=
      scanner.settled_feed _ _ p _
    set q := recv io run p chunk
    rcases feed_of_effective io run hsettled heff with hne | ⟨hs, hb, t, hfeed, hpre, hdiff⟩
    · exact hne (hsame []).symm
    · have hsettled' := scanner.settled_feed halted (act io run) q (lost chunk)
      rw [show scanner.feed halted (act io run) q (lost chunk) = _ from hfeed] at hsettled'
      have hb' : nextToken (ch '$' :: t) = none := by
        rcases hsettled'.pending with h | h
        · exact absurd h.1 (by rw [hs]; decide)
        · exact h.2
      obtain ⟨w, hw, hne⟩ := exists_noticed io run hs hb hb' hpre hdiff
      have hstring : cString w = w :=
        List.takeWhile_eq_self_iff.mpr fun c hc => decide_eq_true fun hc0 => hw (hc0 ▸ hc)
      have hlater := hsame [w]
      rw [hfeed, ActionRun.exec_cons, ActionRun.exec_cons, ActionRun.exec_nil, ActionRun.exec_nil,
        recv, recv, hstring] at hlater
      exact hne hlater
  · intro h later
    rw [recv_of_intact io run hp h]

/-- **Fragmentation goes unnoticed exactly where what is lost has no effect.** A stream
arrives in pieces. After any number of them, and whatever arrives later, `handle_packet`
has been called with the same payloads, and acknowledgements and Ctrl-C have been the
same, as if the bytes so far had arrived one at a time: if and only if every piece is
intact. -/
theorem framing_iff (session : RspSession D) (chunks : List (List U8)) :
    (∀ cs, cs <+: chunks →
        SameEvents io run (ActionRun.exec (recv io run) (start session) cs)
          (ActionRun.exec (recv io run) (start session) (bytewise cs))) ↔
      ActionRun.Along (recv io run) (Intact io run) (start session) chunks := by
  have hstart : scanner.Settled halted (act io run) (start session) := rfl
  generalize start session = p at hstart ⊢
  induction chunks generalizing p with
  | nil =>
    refine iff_of_true ?_ trivial
    intro cs hcs later
    rw [List.prefix_nil.mp hcs]
    rfl
  | cons c chunks ih =>
    have hbytes : ∀ cs, bytewise (c :: cs) = c.map ([·]) ++ bytewise cs := by
      intro cs
      rw [bytewise, List.flatten_cons, List.map_append, bytewise]
    have hsettled : scanner.Settled halted (act io run) (recv io run p c) :=
      scanner.settled_feed _ _ p _
    constructor
    · intro h
      have hc := h [c] ((List.prefix_cons_inj c).mpr List.nil_prefix)
      rw [hbytes, ActionRun.exec_append] at hc
      have hintact : Intact io run p c := (sameEvents_iff io run hstart c).mp hc
      refine ⟨hintact, (ih _ hsettled).mp fun cs hcs => ?_⟩
      have htail := h (c :: cs) ((List.prefix_cons_inj c).mpr hcs)
      rwa [hbytes, ActionRun.exec_append, recv_of_intact io run hstart hintact] at htail
    · rintro ⟨hintact, hrest⟩ cs hcs
      cases cs with
      | nil => exact fun later => rfl
      | cons c' cs =>
        obtain ⟨rfl, htail⟩ := List.cons_prefix_cons.mp hcs
        rw [hbytes, ActionRun.exec_append, recv_of_intact io run hstart hintact]
        exact (ih _ hsettled).mpr hrest cs htail

/-- **A NUL hides a packet**: in one piece with it, the packet behind it is lost; one byte
at a time it is acknowledged and handled. -/
theorem nul_hides_packet :
    let loop := start { server := GdbRsp.bare }
    let step := recv (.empty Unit) fun _ _ => none
    let stream := 0 :: rspPacket [ch '?']
    (ActionRun.exec step loop [stream]).1.events = [] ∧
      (ActionRun.exec step loop (bytewise [stream])).1.events = [.ack, .payload [ch '?']] := by
  decide

end RspLoop
