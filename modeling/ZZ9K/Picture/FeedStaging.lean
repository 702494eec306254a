import ZZ9K.Picture.FeedStream

namespace ZZ9K.Picture

open Framework Host

section Staging

variable {m m' : Media.Machine} {buffer : SharedBuffer}

@[simp] theorem staged_length (m : Media.Machine) (buffer : SharedBuffer) (n : Nat) :
    (staged m buffer n).length = n := by
  rw [staged,List.length_map,List.length_range]

theorem staged_getElem? (m : Media.Machine) (buffer : SharedBuffer) {n i : Nat} (hi : i < n) :
    (staged m buffer n)[i]? = some (m.bytes (ahead (Media.sharedPointer buffer 0) i)) := by
  rw [staged,List.getElem?_map,List.getElem?_range hi]
  rfl

theorem storeEach_bytes (dst : Media.Pointer) (data : List UInt8) (m : Media.Machine)
    (x : Media.Pointer) : (storeEach dst data m).bytes x =
      if Inside dst data.length x then data.getD (x.2-dst.2) 0 else m.bytes x := by
  induction data generalizing dst m with
  | nil =>
    rw [storeEach,if_neg]
    rintro ⟨-,hlow,hhigh⟩
    rw [List.length_nil] at hhigh
    omega
  | cons byte data ih =>
    have hfirst : (Media.storeBytes dst [byte] m).bytes x =
        if Inside dst 1 x then byte else m.bytes x := by
      rw [Media.storeBytes]
      by_cases hx : Inside dst 1 x
      · have hplace : x.2-dst.2 = 0 := by
          have := hx.2
          omega
        simp only [List.length_singleton,if_pos hx,hplace]
        rfl
      · simp only [List.length_singleton,if_neg hx]
    have hsplit := inside_add (p := dst) (x := x) (n := 1) (m := data.length)
    rw [Nat.add_comm] at hsplit
    rw [storeEach,ih,hfirst,List.length_cons]
    by_cases hrest : Inside (ahead dst 1) data.length x
    · have hplace : x.2-dst.2 = x.2-(ahead dst 1).2+1 := by
        have := hrest.2
        simp only [ahead] at this ⊢
        omega
      rw [if_pos hrest,if_pos (hsplit.mpr (.inr hrest)),hplace,List.getD_cons_succ]
    · rw [if_neg hrest]
      by_cases hx : Inside dst 1 x
      · have hplace : x.2-dst.2 = 0 := by
          have := hx.2
          omega
        rw [if_pos hx,if_pos (hsplit.mpr (.inl hx)),hplace]
        rfl
      · rw [if_neg hx,if_neg fun h => (hsplit.mp h).elim hx hrest]

/-- What is copied behind the waiting bytes waits after them. -/
theorem staged_store (m : Media.Machine) (buffer : SharedBuffer) (offset : Nat) (data : List UInt8) :
    staged (storeEach (ahead (Media.sharedPointer buffer 0) offset) data m) buffer
      (offset+data.length) = staged m buffer offset++data := by
  apply List.ext_getElem?
  intro i
  by_cases hi : i < offset+data.length
  · rw [staged_getElem? _ _ hi,storeEach_bytes]
    by_cases hlow : i < offset
    · rw [if_neg,List.getElem?_append_left (by rw [staged_length]; exact hlow),
        staged_getElem? _ _ hlow]
      rintro ⟨-,hge,-⟩
      simp only [ahead] at hge
      omega
    · have hplace : (Media.sharedPointer buffer 0).2+i-((Media.sharedPointer buffer 0).2+offset) =
          i-offset := by omega
      rw [if_pos ⟨rfl,by simp only [ahead]; omega,by simp only [ahead]; omega⟩,
        List.getElem?_append_right (by rw [staged_length]; omega),staged_length]
      simp only [ahead,hplace]
      rw [List.getD_eq_getElem?_getD,List.getElem?_eq_getElem (by omega),Option.getD_some]
  · rw [List.getElem?_eq_none (by rw [staged_length]; omega),List.getElem?_eq_none (by
      rw [List.length_append,staged_length]
      omega)]

/-- The bytes behind those that were consumed move to the front. -/
theorem staged_move {consumed : UInt32} {n : Nat} (hfits : consumed.toNat+n ≤ buffer.length.toNat)
    {ok : Bool} (hmove : Media.sharedMove buffer 0 consumed n.toUInt32 m = (ok,m'))
    (hok : ok = true) : staged m' buffer n = (staged m buffer (consumed.toNat+n)).drop consumed.toNat := by
  have hn : n.toUInt32.toNat = n := by
    have := buffer.length.toNat_lt
    rw [Nat.toUInt32_eq,UInt32.toNat_ofNat']
    exact Nat.mod_eq_of_lt (by omega)
  by_cases hranges : Media.sharedRangeFits buffer 0 n.toUInt32 = true ∧
      Media.sharedRangeFits buffer consumed n.toUInt32 = true
  · obtain ⟨m'',heq,hstored⟩ := Media.sharedMove_stored m hranges.1 hranges.2
    rw [heq] at hmove
    obtain ⟨-,rfl⟩ := Prod.mk.inj hmove
    apply List.ext_getElem?
    intro i
    rw [List.getElem?_drop]
    by_cases hi : i < n
    · rw [staged_getElem? _ _ hi,staged_getElem? _ _ (Nat.add_lt_add_left hi _),hstored.bytes_eq,hn,
        moved,if_pos ⟨rfl,by simp only [ahead]; omega,by simp only [ahead]; omega⟩]
      have hzero : (0 : UInt32).toNat = 0 := rfl
      have hplace : (Media.sharedPointer buffer consumed).2+
          ((ahead (Media.sharedPointer buffer 0) i).2-(Media.sharedPointer buffer 0).2) =
            (Media.sharedPointer buffer 0).2+(consumed.toNat+i) := by
        simp only [ahead,Media.sharedPointer,hzero]
        omega
      rw [hplace]
      rfl
    · rw [List.getElem?_eq_none (by rw [staged_length]; omega),
        List.getElem?_eq_none (by rw [staged_length]; omega)]
  · have hrefused : Media.sharedMove buffer 0 consumed n.toUInt32 m = (false,m) := by
      rw [Media.sharedMove,if_pos]
      rw [not_and_or] at hranges
      exact hranges
    rw [hrefused] at hmove
    obtain ⟨rfl,-⟩ := Prod.mk.inj hmove
    cases hok

end Staging

section Fill

variable {env : FeedEnv} {st : FeedState}

/-- The same loop variables, but for the source and what was read from it -/
def SameButRead (st st' : FeedState) : Prop :=
  st' = {st with memory := st'.memory,unread := st'.unread,reads := st'.reads,eof := st'.eof}

variable (st) in
/-- Reading fills the room or comes to the end of the source, and what waits and what is left stay the
same bytes. -/
theorem readChunk_spec (offset capacity fuel total : Nat) {rest : List UInt8}
    (hscratch : 0 < env.readScratchLength.toNat) (htotal : total ≤ capacity)
    (hfuel : capacity-total < fuel) (heof : st.eof = true → st.unread = [])
    (hrest : staged st.memory env.staging (offset+total)++st.unread = rest) :
    ∃ copied st', readChunk env offset capacity fuel total st = .ok (copied,st') ∧
      SameButRead st st' ∧ ∀ n, copied = some n →
        n ≤ capacity ∧ (n = capacity ∨ st'.eof = true) ∧ (st'.eof = true → st'.unread = []) ∧
          staged st'.memory env.staging (offset+n)++st'.unread = rest := by
  induction fuel generalizing st total with
  | zero => omega
  | succ fuel ih =>
    rw [readChunk]
    by_cases hmore : total < capacity ∧ (!st.eof) = true
    swap
    · rw [if_neg hmore]
      refine ⟨some total,st,rfl,rfl,fun n hn => ?_⟩
      obtain rfl := Option.some.inj hn
      refine ⟨htotal,?_,heof,hrest⟩
      by_cases hend : st.eof = true
      · exact .inr hend
      · left
        rw [Bool.not_eq_true] at hend
        rw [hend] at hmore
        by_contra hne
        exact hmore ⟨by omega,rfl⟩
    rw [if_pos hmore]
    generalize hwant : min (capacity-total) env.readScratchLength.toNat = want
    have hwantpos : 0 < want := by omega
    dsimp only
    rw [sourceTake]
    by_cases hfail : 0x7ffffffe < want ∨ env.fails st.reads = true
    · rw [if_pos hfail]
      exact ⟨none,_,rfl,rfl,nofun⟩
    rw [if_neg hfail]
    dsimp only
    by_cases hempty : (st.unread.take want).length = 0
    · rw [if_pos hempty]
      refine ⟨some total,_,rfl,rfl,fun n hn => ?_⟩
      obtain rfl := Option.some.inj hn
      have hnone : st.unread = [] := by
        rw [List.length_take] at hempty
        exact List.eq_nil_of_length_eq_zero (by omega)
      refine ⟨htotal,.inr rfl,fun _ => ?_,?_⟩
      · dsimp only
        rw [hnone,List.drop_nil]
      · dsimp only
        rw [hnone,List.drop_nil,← hrest,hnone]
    rw [if_neg hempty]
    by_cases hnull : env.staging.data = 0
    · rw [if_pos hnull]
      exact ⟨none,_,rfl,rfl,nofun⟩
    rw [if_neg hnull,sharedCopyToBytes]
    by_cases hrefused : env.staging.handle = invalidHandle ∨ env.staging.data = 0 ∨
        env.staging.length.toNat < offset+total ∨
        env.staging.length.toNat-(offset+total) < (st.unread.take want).length
    · simp only [if_pos hrefused]
      exact ⟨none,_,rfl,rfl,nofun⟩
    simp only [if_neg hrefused,Bool.not_true,Bool.false_eq_true,if_false]
    have hlen : (st.unread.take want).length ≤ want := List.length_take_le want _
    have hstaged := staged_store st.memory env.staging (offset+total) (st.unread.take want)
    obtain ⟨copied,st',heq,hsame,hdone⟩ := ih {st with
        memory := storeEach (ahead (Media.sharedPointer env.staging 0) (offset+total))
          (st.unread.take want) st.memory,
        unread := st.unread.drop want,reads := st.reads+1,
        eof := decide ((st.unread.take want).length < want) || st.eof}
      (total+(st.unread.take want).length) (by omega) (by omega) (by
        intro hend
        rw [Bool.or_eq_true,decide_eq_true_eq] at hend
        rcases hend with hshort | hend
        · rw [List.length_take] at hshort
          exact List.drop_eq_nil_of_le (by omega)
        · dsimp only
          rw [heof hend,List.drop_nil]) (by
        dsimp only
        rw [← Nat.add_assoc,hstaged,List.append_assoc,List.take_append_drop,hrest])
    exact ⟨copied,st',heq,hsame,hdone⟩

/-- After it was filled, the buffer is full or has all that was left of the source. -/
theorem fillStaging_spec (heof : st.eof = true → st.unread = []) {rest : List UInt8}
    (hrest : staged st.memory env.staging st.buffered++st.unread = rest) :
    ∃ ok st', fillStaging env st = .ok (ok,st') ∧
      st' = {st with
        memory := st'.memory,unread := st'.unread,reads := st'.reads,eof := st'.eof,
        buffered := st'.buffered} ∧
      (ok = true → st'.buffered ≤ env.staging.length.toNat ∧
        (st'.eof = true ∨ st'.buffered = env.staging.length.toNat) ∧
        (st'.eof = true → st'.unread = []) ∧
        staged st'.memory env.staging st'.buffered++st'.unread = rest) := by
  rw [fillStaging]
  split_ifs with hbad hfull
  · exact ⟨false,st,rfl,rfl,nofun⟩
  · rw [not_or,Nat.not_lt] at hbad
    exact ⟨true,st,rfl,rfl,fun _ => ⟨hbad.2,hfull,heof,hrest⟩⟩
  · rw [not_or,Nat.not_lt] at hbad
    have hscratch : 0 < env.readScratchLength.toNat :=
      Nat.pos_of_ne_zero fun hzero => hbad.1 (UInt32.toNat_inj.mp hzero)
    obtain ⟨copied,st',heq,hsame,hdone⟩ := readChunk_spec st st.buffered
      (env.staging.length.toNat-st.buffered) (env.staging.length.toNat-st.buffered+1) 0 hscratch
      (Nat.zero_le _) (by omega) heof hrest
    simp only [heq]
    cases copied with
    | none =>
      refine ⟨false,st',rfl,?_,nofun⟩
      rw [hsame]
    | some n =>
      obtain ⟨hle,hfilled,hend,hrest'⟩ := hdone n rfl
      have hbuffered : st'.buffered = st.buffered := by rw [hsame]
      refine ⟨true,_,rfl,?_,fun _ => ⟨?_,?_,hend,?_⟩⟩
      · rw [hsame]
      · dsimp only
        omega
      · dsimp only
        rcases hfilled with rfl | hend'
        · exact .inr (by omega)
        · exact .inl hend'
      · dsimp only
        rw [hbuffered]
        exact hrest'

end Fill

end ZZ9K.Picture
