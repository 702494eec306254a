import ZZ9K.Audio.Mp3Clients

namespace ZZ9K.Audio

open Framework Framework.Attempt

section Ring

/-- The next place in a ring -/
theorem ringAdvance_toNat {offset bytes capacity : UInt32} (hcapacity : 0 < capacity.toNat)
    (hoffset : offset.toNat < capacity.toNat) :
    (ringAdvance offset bytes capacity).toNat = (offset.toNat+bytes.toNat) % capacity.toNat := by
  have hne : capacity ≠ 0 := by
    rintro rfl
    exact absurd hcapacity (Nat.lt_irrefl 0)
  have hcap := capacity.toNat_lt
  have hmod : (bytes%capacity).toNat < capacity.toNat := by
    rw [UInt32.toNat_mod]
    exact Nat.mod_lt _ hcapacity
  have hsub : (capacity-offset).toNat = capacity.toNat-offset.toNat :=
    UInt32.toNat_sub_of_le _ _ (UInt32.le_iff_toNat_le.mpr (Nat.le_of_lt hoffset))
  have hsum : (offset.toNat+bytes.toNat) % capacity.toNat =
      (offset.toNat+(bytes%capacity).toNat) % capacity.toNat := by
    rw [UInt32.toNat_mod,Nat.add_mod_mod]
  rw [hsum,ringAdvance,if_neg hne]
  dsimp only
  by_cases hwraps : capacity-offset ≤ bytes%capacity
  · have hle := UInt32.le_iff_toNat_le.mp hwraps
    rw [if_pos hwraps,UInt32.toNat_sub_of_le _ _ hwraps,hsub]
    rw [hsub] at hle
    have hplace : offset.toNat+(bytes%capacity).toNat =
        (bytes%capacity).toNat-(capacity.toNat-offset.toNat)+capacity.toNat := by omega
    rw [hplace,Nat.add_mod_right,Nat.mod_eq_of_lt (by omega)]
  · have hlt : (bytes%capacity).toNat < capacity.toNat-offset.toNat := by
      rw [← hsub]
      exact Nat.lt_of_not_le fun h => hwraps (UInt32.le_iff_toNat_le.mpr h)
    rw [if_neg hwraps,UInt32.toNat_add,Nat.mod_eq_of_lt (by omega),Nat.mod_eq_of_lt (by omega)]

variable {setup : Mp3Setup} {s : Mp3Board} {r : Mp3Result}

/-- A part of the ring that does not wrap is a part of the PCM. -/
theorem Mp3Tells.ringBytes_eq (h : Mp3Tells setup s r) {p : Nat} {offset length : UInt32}
    (hoffset : offset.toNat = (s.first+p) % setup.ringLength.toNat) (hlow : s.acknowledged ≤ p)
    (hhigh : p+length.toNat ≤ s.pcm.length)
    (hfits : offset.toNat+length.toNat ≤ setup.ringLength.toNat) :
    s.ringBytes offset length = (s.pcm.drop p).take length.toNat := by
  apply List.ext_getElem?
  intro i
  rw [Mp3Board.ringBytes,List.getElem?_map,List.getElem?_take]
  by_cases hi : i < length.toNat
  · have hplace : (s.first+(p+i)) % setup.ringLength.toNat = offset.toNat+i := by
      rw [← Nat.add_assoc,← Nat.mod_add_mod,← hoffset]
      exact Nat.mod_eq_of_lt (by omega)
    rw [List.getElem?_range hi,if_pos hi,List.getElem?_drop,
      h.placed (p+i) (by omega) (by omega),hplace]
    rfl
  · rw [List.getElem?_eq_none (by rw [List.length_range]; omega),if_neg hi]
    rfl

end Ring

/-- Each feed of a chunk showed its bytes, and the firmware took none of them after the first. -/
structure Mp3Chunk.Shown (c : Mp3Chunk) : Prop where
  data : ∀ f ∈ c.feeds, f.data = c.data
  rest : ∀ f ∈ c.feeds.tail, f.taken = false

/-- What holds of the chunks at any point: those before the last one were each fed, and all together are
what was read of the source. -/
structure Mp3Board.Kept (source : List UInt8) (s : Mp3Board) : Prop where
  fed : ∀ c ∈ s.read, c.Shown ∧ c.feeds ≠ []
  whole : (s.read++s.current.toList).flatMap Mp3Chunk.data++s.file = source

/-- What holds where a tool gives up -/
structure Mp3Board.Left (source : List UInt8) (s : Mp3Board) : Prop extends Mp3Board.Kept source s where
  delivered : s.delivered <+: s.pcm

variable (setup : Mp3Setup) (sounds : Bool) (source : List UInt8)

/-- What a tool may give up for: something failed, or a feed stayed rejected, where the firmware needs as
many reads as there are attempts or where a lazy tool left out a read. -/
def Gives (lazy : Bool) (e : Mp3Ended) (s : Mp3Board) : Prop :=
  (e = .failed ∨ e = .stuck ∧ (64 ≤ setup.clears ∨ lazy = true ∧ s.idle = true)) ∧ s.Left source

/-- What holds of a tool and the board at any point: the tool knows how far the firmware is, and has
delivered all that it says it has seen. -/
structure Mp3Sound (d : Mp3Cursor) (s : Mp3Board) : Prop extends Mp3Board.Kept source s where
  tells : Mp3Tells setup s d.result
  flag : d.result.backpressure = s.pressed
  acked : s.acknowledged+d.pendingAck.toNat = d.producedSeen.toNat
  seen_le : d.producedSeen.toNat ≤ s.pcm.length
  offset : d.pcmOffset.toNat = (s.first+d.producedSeen.toNat) % setup.ringLength.toNat
  delivered : s.delivered = if sounds then s.pcm.take d.producedSeen.toNat else []
  bounded : ∀ n, s.held = some n → n = 0 ∨ n < setup.clears

/-- Between two states there were at least so many reads and no feed. -/
structure Quiet (n : Nat) (s s' : Mp3Board) : Prop where
  file : s'.file = s.file
  staging : s'.staging = s.staging
  read : s'.read = s.read
  current : s'.current = s.current
  idle : s'.idle = s.idle
  pcm : s.pcm <+: s'.pcm
  held : s'.pressed = true → s.pressed = true ∧ ∃ m, n ≤ m ∧ s'.held = s.held.map (·+m)

theorem Quiet.refl (s : Mp3Board) : Quiet 0 s s :=
  ⟨rfl,rfl,rfl,rfl,rfl,List.prefix_rfl,fun h => ⟨h,0,Nat.le_refl 0,by cases s.held <;> rfl⟩⟩

theorem Quiet.delivered (s : Mp3Board) (data : List UInt8) : Quiet 0 s {s with delivered := data} :=
  ⟨rfl,rfl,rfl,rfl,rfl,List.prefix_rfl,(Quiet.refl s).held⟩

theorem Quiet.weaken {n : Nat} {s s' : Mp3Board} (h : Quiet n s s') : Quiet 0 s s' := by
  refine ⟨h.file,h.staging,h.read,h.current,h.idle,h.pcm,fun hpressed => ?_⟩
  obtain ⟨hfirst,m,-,hheld⟩ := h.held hpressed
  exact ⟨hfirst,m,Nat.zero_le m,hheld⟩

theorem Quiet.trans {n m : Nat} {s s' s'' : Mp3Board} (h : Quiet n s s') (h' : Quiet m s' s'') :
    Quiet (n+m) s s'' := by
  refine ⟨h'.file.trans h.file,h'.staging.trans h.staging,h'.read.trans h.read,
    h'.current.trans h.current,h'.idle.trans h.idle,h.pcm.trans h'.pcm,fun hpressed => ?_⟩
  obtain ⟨hmiddle,j,hj,hheld'⟩ := h'.held hpressed
  obtain ⟨hfirst,i,hi,hheld⟩ := h.held hmiddle
  refine ⟨hfirst,i+j,Nat.add_le_add hi hj,?_⟩
  rw [hheld',hheld]
  cases s.held with
  | none => rfl
  | some k => exact congrArg some (Nat.add_assoc k i j)

section

variable {setup sounds source} {d : Mp3Cursor} {s : Mp3Board}

theorem Mp3Sound.left (h : Mp3Sound setup sounds source d s) : s.Left source := by
  refine ⟨h.toKept,?_⟩
  rw [h.delivered]
  split_ifs
  · exact List.take_prefix _ _
  · exact List.nil_prefix

theorem Mp3Sound.gives (h : Mp3Sound setup sounds source d s) (lazy : Bool) :
    Gives setup source lazy .failed s :=
  ⟨.inl rfl,h.left⟩

/-- No attempt is left. -/
theorem Mp3Sound.stuck (h : Mp3Sound setup sounds source d s) {lazy : Bool} {n : Nat}
    (hwaits : lazy = true ∧ s.idle = true ∨ ∃ k, s.held = some k ∧ n ≤ k) (hn : 63 ≤ n) :
    Gives setup source lazy .stuck s := by
  refine ⟨.inr ⟨rfl,?_⟩,h.left⟩
  rcases hwaits with hidle | ⟨k,hk,hle⟩
  · exact .inr hidle
  · have hbound := h.bounded k hk
    exact .inl (by omega)

/-- A read acknowledges all that was seen. -/
theorem Mp3Sound.onRead (h : Mp3Sound setup sounds source d s) {reply : Mp3Reply}
    (hallowed : mp3Allowed setup s ⟨.read d.pendingAck,some reply⟩) :
    Mp3Sound setup sounds source (d.acked reply.result) (s.onRead d.pendingAck reply) ∧
      Quiet 1 s (s.onRead d.pendingAck reply) := by
  obtain ⟨htells,hclears⟩ := hallowed
  constructor
  · refine ⟨⟨h.fed,h.whole⟩,htells,rfl,h.acked,?_,?_,?_,?_⟩
    · exact Nat.le_trans h.seen_le (List.prefix_append _ _).length_le
    · have hplace : reply.result.pcmRead.toNat =
          (s.first+(s.acknowledged+d.pendingAck.toNat)) % setup.ringLength.toNat := htells.pcmRead
      rw [h.acked] at hplace
      exact hplace
    · have hsame : (s.pcm++reply.decoded).take d.producedSeen.toNat =
          s.pcm.take d.producedSeen.toNat := List.take_append_of_le_length h.seen_le
      refine h.delivered.trans ?_
      rw [← hsame]
      rfl
    · intro n hn
      have hheld : (if reply.result.backpressure then s.held.map (·+1) else none) = some n := hn
      split_ifs at hheld with hpressed
      obtain ⟨k,hk,rfl⟩ := Option.map_eq_some_iff.mp hheld
      exact .inr ((hclears hpressed).2 k hk)
  · refine ⟨rfl,rfl,rfl,rfl,rfl,List.prefix_append _ _,fun hpressed => ?_⟩
    have hstill : reply.result.backpressure = true := hpressed
    refine ⟨(hclears hstill).1,1,Nat.le_refl 1,?_⟩
    exact if_pos hstill

/-- The tool has used bytes of the ring and delivered them. -/
theorem Mp3Sound.seen (h : Mp3Sound setup sounds source d s) (hring : 0 < setup.ringLength.toNat)
    {bytes : UInt32} (hbytes : d.producedSeen.toNat+bytes.toNat ≤ s.pcm.length)
    {delivered : List UInt8} (hdelivered : delivered =
      if sounds then (s.pcm.drop d.producedSeen.toNat).take bytes.toNat else []) :
    Mp3Sound setup sounds source (d.seen bytes setup.ringLength)
      {s with delivered := s.delivered++delivered} := by
  have hsmall := h.tells.small
  have hseen : (d.producedSeen+bytes).toNat = d.producedSeen.toNat+bytes.toNat := by
    rw [UInt32.toNat_add]
    exact Nat.mod_eq_of_lt (by omega)
  have hpending : (d.pendingAck+bytes).toNat = d.pendingAck.toNat+bytes.toNat := by
    have := h.acked
    rw [UInt32.toNat_add]
    exact Nat.mod_eq_of_lt (by omega)
  obtain ⟨hroom,hsmall',hplaced,hproduced,hpcmRead⟩ := h.tells
  refine ⟨⟨h.fed,h.whole⟩,⟨hroom,hsmall',hplaced,hproduced,hpcmRead⟩,h.flag,?_,?_,?_,?_,h.bounded⟩
  · have := h.acked
    simp only [Mp3Cursor.seen,hseen,hpending]
    omega
  · simp only [Mp3Cursor.seen,hseen]
    exact hbytes
  · have hoffset : d.pcmOffset.toNat < setup.ringLength.toNat := by
      rw [h.offset]
      exact Nat.mod_lt _ hring
    simp only [Mp3Cursor.seen,hseen]
    rw [ringAdvance_toNat hring hoffset,h.offset,Nat.mod_add_mod,Nat.add_assoc]
  · simp only [Mp3Cursor.seen,hseen]
    rw [h.delivered,hdelivered]
    cases sounds with
    | true => exact (List.take_add).symm
    | false => rfl

/-- The bytes that a tool may use lie in the ring where it looks for them. -/
theorem Mp3Sound.ringBytes_eq (h : Mp3Sound setup sounds source d s) {n : Nat} {offset length : UInt32}
    (hoffset : offset.toNat = (d.pcmOffset.toNat+n) % setup.ringLength.toNat)
    (hhigh : d.producedSeen.toNat+n+length.toNat ≤ s.pcm.length)
    (hfits : offset.toNat+length.toNat ≤ setup.ringLength.toNat) :
    s.ringBytes offset length = (s.pcm.drop (d.producedSeen.toNat+n)).take length.toNat := by
  apply h.tells.ringBytes_eq _ _ hhigh hfits
  · rw [hoffset,h.offset,Nat.mod_add_mod,Nat.add_assoc]
  · have := h.acked
    omega

/-- The chunk that was read last was fed. -/
def Mp3Board.Between (s : Mp3Board) : Prop := ∀ c, s.current = some c → c.Shown ∧ c.feeds ≠ []

/-- The next chunk is read and waits for its first feed. -/
theorem Mp3Sound.onFread (h : Mp3Sound setup sounds source d s) (hbetween : s.Between) {data : List UInt8}
    (hstarts : data <+: s.file) : Mp3Sound setup sounds source d (s.onFread data) := by
  obtain ⟨hroom,hsmall,hplaced,hproduced,hpcmRead⟩ := h.tells
  refine ⟨⟨?_,?_⟩,⟨hroom,hsmall,hplaced,hproduced,hpcmRead⟩,h.flag,h.acked,h.seen_le,h.offset,
    h.delivered,h.bounded⟩
  · intro c hc
    rcases List.mem_append.mp hc with hc | hc
    · exact h.fed c hc
    · exact hbetween c (Option.mem_toList.mp hc)
  · obtain ⟨rest,hrest⟩ := hstarts
    rw [← h.whole,← hrest]
    by_cases hempty : data = []
    · subst hempty
      simp [Mp3Board.onFread,hrest]
    · simp [Mp3Board.onFread,hempty,← hrest]

/-- What a feed of a chunk finds, with so many attempts left: only the first attempt meets a firmware that
may take the chunk, and the reads since a rejection add up; a lazy tool may leave out a read. -/
structure Ready (lazy : Bool) (length : UInt32) (attempts : Nat) (s : Mp3Board) : Prop where
  shown : ∀ c, s.current = some c → c.Shown
  staged : length ≠ 0 → ∀ c, s.current = some c → s.staging.take length.toNat = c.data
  first : attempts = 64 → ∀ c, s.current = some c → c.feeds = []
  pressed : attempts ≠ 64 → s.pressed = true
  waits : attempts < 63 → lazy = true ∧ s.idle = true ∨ ∃ n, s.held = some n ∧ 63 ≤ attempts+n

/-- The bytes of the next chunk go to the staging buffer. -/
theorem Mp3Sound.staged (h : Mp3Sound setup sounds source d s) (data : List UInt8) :
    Mp3Sound setup sounds source d {s with staging := data} := by
  obtain ⟨hroom,hsmall,hplaced,hproduced,hpcmRead⟩ := h.tells
  exact ⟨⟨h.fed,h.whole⟩,⟨hroom,hsmall,hplaced,hproduced,hpcmRead⟩,h.flag,h.acked,h.seen_le,h.offset,
    h.delivered,h.bounded⟩

theorem ready_chunk (lazy : Bool) {length : UInt32} {data : List UInt8}
    (hcurrent : s.current = some ⟨data,[]⟩) (hstaging : s.staging = data)
    (hlength : length.toNat = data.length) : Ready lazy length 64 s := by
  refine ⟨fun c hc => ?_,fun _ c hc => ?_,fun _ c hc => ?_,fun hne => absurd rfl hne,
    fun hless => absurd hless (by decide)⟩
  · obtain rfl := Option.some.inj (hc.symm.trans hcurrent)
    exact ⟨nofun,nofun⟩
  · obtain rfl := Option.some.inj (hc.symm.trans hcurrent)
    rw [hstaging,hlength,List.take_length]
  · obtain rfl := Option.some.inj (hc.symm.trans hcurrent)
    rfl

theorem ready_end (lazy : Bool) (length : UInt32) (hcurrent : s.current = none) :
    Ready lazy length 64 s := by
  refine ⟨fun c hc => ?_,fun _ c hc => ?_,fun _ c hc => ?_,fun hne => absurd rfl hne,
    fun hless => absurd hless (by decide)⟩
  · rw [hcurrent] at hc
    cases hc
  · rw [hcurrent] at hc
    cases hc
  · rw [hcurrent] at hc
    cases hc

/-- What it leaves -/
structure Offered (lazy : Bool) (length : UInt32) (attempts : Nat) (s : Mp3Board) : Prop where
  shown : ∀ c, s.current = some c → c.Shown ∧ (length ≠ 0 → c.feeds ≠ [])
  staged : length ≠ 0 → ∀ c, s.current = some c → s.staging.take length.toNat = c.data
  waits : attempts < 63 → lazy = true ∧ s.idle = true ∨ ∃ n, s.held = some n ∧ 63 ≤ attempts+1+n
  idles : attempts < 63 → s.idle = true ∨ s.acknowledged < s.pcm.length

/-- A feed: the firmware takes its bytes only at the first attempt. -/
theorem Mp3Sound.onFeed (h : Mp3Sound setup sounds source d s) {length : UInt32} (eof : Bool)
    {lazy : Bool} {attempts : Nat} (hready : Ready lazy length (attempts+1) s)
    (hattempts : attempts < 64) {reply : Mp3Reply}
    (hallowed : mp3Allowed setup s ⟨.feed length eof,some reply⟩) :
    Mp3Sound setup sounds source {d with result := reply.result} (s.onFeed length reply) ∧
      Offered lazy length attempts (s.onFeed length reply) ∧
      (s.current = none → (s.onFeed length reply).current = none) := by
  obtain ⟨htells,hrejects,hrejected⟩ := hallowed
  refine ⟨?_,?_,fun hnone => by simp [Mp3Board.onFeed,Mp3Board.onDecoded,hnone]⟩
  · refine ⟨⟨h.fed,?_⟩,htells,rfl,h.acked,?_,h.offset,?_,?_⟩
    · rw [← h.whole]
      simp only [Mp3Board.onFeed,Mp3Board.onDecoded]
      split_ifs
      · rfl
      · cases s.current with
        | none => rfl
        | some c => simp
    · exact Nat.le_trans h.seen_le (List.prefix_append _ _).length_le
    · have hsame : (s.pcm++reply.decoded).take d.producedSeen.toNat =
          s.pcm.take d.producedSeen.toNat := List.take_append_of_le_length h.seen_le
      refine h.delivered.trans ?_
      rw [← hsame]
      rfl
    · intro n hn
      have hheld : (if reply.taken then none else some (s.held.getD 0)) = some n := hn
      split_ifs at hheld
      obtain rfl := Option.some.inj hheld
      cases hk : s.held with
      | none => exact .inl rfl
      | some k => exact h.bounded k hk
  -- Only the first attempt meets a firmware that is not under pressure.
  have hrefused : attempts ≠ 63 → reply.taken = false :=
    fun hne => hrejects (hready.pressed (by omega))
  refine ⟨fun c' hc' => ?_,fun hlength c' hc' => ?_,fun hless => ?_,fun hless => ?_⟩
  · have hcurrent : (if length = 0 then s.current else s.current.map fun c => {c with
        feeds := c.feeds++[⟨s.staging.take length.toNat,reply.taken⟩]}) = some c' := hc'
    split_ifs at hcurrent with hzero
    · exact ⟨hready.shown c' hcurrent,fun hne => absurd hzero hne⟩
    · obtain ⟨c,hc,rfl⟩ := Option.map_eq_some_iff.mp hcurrent
      obtain ⟨hdata,hrest⟩ := hready.shown c hc
      refine ⟨⟨fun f hf => ?_,fun f hf => ?_⟩,fun _ => by simp⟩
      · rcases List.mem_append.mp hf with hf | hf
        · exact hdata f hf
        · obtain rfl := List.mem_singleton.mp hf
          exact hready.staged hzero c hc
      · by_cases hfirst : attempts = 63
        · have hnone : c.feeds = [] := hready.first (by omega) c hc
          simp only [hnone,List.nil_append,List.tail_cons] at hf
          cases hf
        · cases hfeeds : c.feeds with
          | nil =>
            simp only [hfeeds,List.nil_append,List.tail_cons] at hf
            cases hf
          | cons g feeds =>
            simp only [hfeeds,List.cons_append,List.tail_cons] at hf
            rcases List.mem_append.mp hf with hf | hf
            · exact hrest f (by rw [hfeeds]; exact hf)
            · obtain rfl := List.mem_singleton.mp hf
              exact hrefused hfirst
  · have hcurrent : (if length = 0 then s.current else s.current.map fun c => {c with
        feeds := c.feeds++[⟨s.staging.take length.toNat,reply.taken⟩]}) = some c' := hc'
    rw [if_neg hlength] at hcurrent
    obtain ⟨c,hc,rfl⟩ := Option.map_eq_some_iff.mp hcurrent
    exact hready.staged hlength c hc
  · have hheld : (s.onFeed length reply).held = some (s.held.getD 0) := by
      have htaken := hrefused (by omega)
      exact if_neg (by rw [htaken]; exact Bool.false_ne_true)
    by_cases hwaited : attempts+1 < 63
    · rcases hready.waits hwaited with ⟨hlazy,hidle⟩ | ⟨n,hn,hle⟩
      · exact .inl ⟨hlazy,by simp [Mp3Board.onFeed,hidle]⟩
      · exact .inr ⟨n,by rw [hheld,hn]; rfl,by omega⟩
    · exact .inr ⟨_,hheld,by omega⟩
  · have hdecoded : reply.decoded = [] := (hrejected (hrefused (by omega))).1
    have hpressed := hready.pressed (by omega)
    simp only [Mp3Board.onFeed,Mp3Board.onDecoded,hdecoded,hpressed,List.append_nil,Bool.true_and,
      Bool.or_eq_true,decide_eq_true_eq]
    omega

/-- A read after a rejected feed leaves the next attempt ready; a lazy tool leaves it out only where all
the PCM is acknowledged. -/
theorem Offered.ready {lazy : Bool} {length : UInt32} {attempts n : Nat} {s' : Mp3Board}
    (h : Offered lazy length attempts s) (hattempts : attempts < 64) (hquiet : Quiet n s s')
    (hreads : 0 < n ∨ lazy = true ∧ s.pcm.length ≤ s.acknowledged) (hpressed : s'.pressed = true) :
    Ready lazy length attempts s' := by
  refine ⟨fun c hc => ?_,fun hlength c hc => ?_,fun heq => by omega,fun _ => hpressed,
    fun hless => ?_⟩
  · exact (h.shown c (hquiet.current ▸ hc)).1
  · rw [hquiet.staging]
    exact h.staged hlength c (hquiet.current ▸ hc)
  · rcases hreads with hreads | ⟨hlazy,hall⟩
    · rcases h.waits hless with ⟨hlazy,hidle⟩ | ⟨k,hk,hle⟩
      · exact .inl ⟨hlazy,hquiet.idle ▸ hidle⟩
      · obtain ⟨-,m,hm,hheld⟩ := hquiet.held hpressed
        exact .inr ⟨k+m,by rw [hheld,hk]; rfl,by omega⟩
    · have hidle := (h.idles hless).resolve_right (Nat.not_lt.mpr hall)
      exact .inl ⟨hlazy,hquiet.idle ▸ hidle⟩

end

section Programs

variable {setup : Mp3Setup} {s : Mp3Board} {α : Type}

@[simp] theorem wp_ask {c : Mp3Call} {Q : Mp3Answer c → Mp3Board → Prop}
    {E : Mp3Ended → Mp3Board → Prop} : wp (mp3World setup) (ask c) Q E s ↔
      ∀ x, mp3Allowed setup s ⟨c,x⟩ → Q x (mp3Next s ⟨c,x⟩) := Iff.rfl

/-- A question whose answer may be missing -/
theorem wp_given {x : Option α} {Q : α → Mp3Board → Prop} {E : Mp3Ended → Mp3Board → Prop}
    (hsome : ∀ a, x = some a → Q a s) (hnone : x = none → E .failed s) :
    wp (mp3World setup) (given x) Q E s := by
  cases x with
  | some a => exact hsome a rfl
  | none => exact hnone rfl

theorem wp_ensure {ok : Bool} {Q : Unit → Mp3Board → Prop} {E : Mp3Ended → Mp3Board → Prop}
    (htrue : ok = true → Q () s) (hfalse : ok = false → E .failed s) :
    wp (mp3World setup) (ensure ok) Q E s := by
  cases ok with
  | true => exact htrue rfl
  | false => exact hfalse rfl

end Programs

section Ends

variable {setup : Mp3Setup} {sounds : Bool} {file : List UInt8} {ring : Nat → UInt8}

theorem fresh_left : (Mp3Board.fresh file ring).Left file :=
  ⟨⟨nofun,rfl⟩,List.prefix_rfl⟩

/-- A session begins with no PCM. -/
theorem Mp3Sound.begun {r : Mp3Result}
    (hallowed : mp3Allowed setup (.fresh file ring) ⟨.begin,some r⟩) :
    Mp3Sound setup sounds file ⟨r,0,r.pcmRead,0⟩ (mp3Next (.fresh file ring) ⟨.begin,some r⟩) := by
  obtain ⟨⟨hroom,hsmall,hplaced,hproduced,hpcmRead⟩,hinside⟩ := hallowed
  refine ⟨⟨nofun,rfl⟩,⟨hroom,hsmall,hplaced,hproduced,hpcmRead⟩,rfl,rfl,Nat.zero_le _,?_,?_,nofun⟩
  · exact (Nat.mod_eq_of_lt hinside).symm
  · cases sounds <;> rfl

/-- Where all PCM was used, all was delivered. -/
theorem Mp3Sound.delivered_all {d : Mp3Cursor} {s : Mp3Board} (h : Mp3Sound setup sounds file d s)
    (hall : d.producedSeen.toNat = s.pcm.length) (hsounds : sounds = true) : s.delivered = s.pcm := by
  rw [h.delivered,if_pos hsounds,hall,List.take_length]

end Ends

end ZZ9K.Audio
