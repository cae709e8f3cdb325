import PacketRpc.Net.AddressText
import PacketRpc.Proofs.Number.Digits

/-!
# Addresses read back

Every socket address is read from its text (`SocketAddress.ofText?_text`). Numbers and groups end
where something follows that is no digit; groups end before two colons, a bracket or a percent sign
(`IPv6.EndsGroups`), and none of them is taken for numbers of the fourth version
(`IPv6.readGroups_letters`). The groups that are left out are zeros, because the longest row of
zeros is one (`IPv6.isZeroRow_longestZeros`), and they are as many as are missing.
-/

namespace PacketRpc

/-- True of what can stand behind a number in any radix. -/
def EndsDigits (cs : List Char) : Prop := ∀ c ∈ cs.head?, Digits.value? 16 c = none

variable {rest : List Char}

theorem endsDigits_cons {c : Char} (h : Digits.value? 16 c = none) (cs : List Char) :
    EndsDigits (c :: cs) := by
  rintro d hd
  cases hd
  exact h

theorem EndsDigits.value?_eq_none (h : EndsDigits rest) (radix : Nat) :
    ∀ c ∈ rest.head?, Digits.value? radix c = none :=
  fun c hc => Digits.value?_eq_none (h c hc)

theorem boundedNumber?_toDigits {bound n : Nat} (hn : n < bound) (hrest : EndsDigits rest) :
    boundedNumber? bound (Nat.toDigits 10 n ++ rest) = some (n, rest) := by
  obtain ⟨d, ds, hchars, hlt, hnum, -⟩ := Digits.exists_digits (by decide : 1 < 10) n
  rw [boundedNumber?, hchars,
    Digits.leading_digitChars (by decide) hlt (hrest.value?_eq_none 10)]
  simp only [hnum, if_pos hn]

/-! ## The fourth version -/

namespace IPv4

theorem number?_toDigits (n : UInt8) (hrest : EndsDigits rest) :
    number? (Nat.toDigits 10 n.toNat ++ rest) = some (n, rest) := by
  obtain ⟨d, ds, hchars, hlt, hnum, hz⟩ :=
    Digits.exists_digits (by decide : 1 < 10) n.toNat
  have hn : n.toNat < 256 := n.toNat_lt
  have hl : (d :: ds).length ≤ 3 := by
    have := (Nat.length_toDigits_le_iff (b := 10) (k := 3) (by decide) (by decide)).2
      (Nat.lt_trans hn (by decide))
    rwa [hchars, List.length_map] at this
  have hok : ds.length < 3 ∧ (d ≠ 0 ∨ ds = []) ∧ n.toNat < 256 :=
    ⟨hl, Classical.or_iff_not_imp_left.2 fun hd => hz (Classical.not_not.1 hd), hn⟩
  rw [number?, hchars, Digits.leading_digitChars (by decide) hlt (hrest.value?_eq_none 10)]
  simp only [hnum]
  rw [if_pos hok, UInt8.ofNat_toNat]

theorem toList_text (a : IPv4) : a.text.toList =
    Nat.toDigits 10 a.first.toNat ++ '.' :: (Nat.toDigits 10 a.second.toNat ++
      '.' :: (Nat.toDigits 10 a.third.toNat ++ '.' :: Nat.toDigits 10 a.fourth.toNat)) := by
  simp [text, String.toList_append, Nat.toList_repr]

theorem read?_text (a : IPv4) (hrest : EndsDigits rest) :
    read? (a.text.toList ++ rest) = some (a, rest) := by
  have hpoint (cs : List Char) : EndsDigits ('.' :: cs) := endsDigits_cons (by decide) cs
  simp only [toList_text, List.append_assoc, List.cons_append, read?,
    number?_toDigits _ (hpoint _), number?_toDigits _ hrest, character?, if_pos,
    Option.bind_eq_bind, Option.bind_some, Option.pure_def]

/-- Where no point follows the first digits, there is no address of the fourth version. -/
theorem read?_eq_none {cs : List Char} (h : (Digits.leading 10 cs).2.head? ≠ some '.') :
    read? cs = none := by
  have hnumber {a : UInt8} {ds : List Char} (hn : number? cs = some (a, ds)) :
      character? '.' ds = none := by
    obtain ⟨hd, tl⟩ : ds = (Digits.leading 10 cs).2 ∧ True := by
      rw [number?] at hn
      split at hn
      · cases hn
      · next d ds' r hl =>
        simp only [Option.ite_none_right_eq_some, Option.some.injEq, Prod.mk.injEq] at hn
        exact ⟨by rw [hl, ← hn.2.2], trivial⟩
    subst hd
    rcases hr : (Digits.leading 10 cs).2 with _ | ⟨c, r⟩
    · rfl
    · rw [hr] at h
      have hc : c ≠ '.' := fun hc => h (by rw [hc]; rfl)
      simp [character?, hc]
  rcases hn : number? cs with _ | ⟨a, ds⟩
  · simp [read?, hn]
  · simp [read?, hn, hnumber hn]

end IPv4

/-! ## Groups -/

namespace IPv6

/-- True of what can stand behind groups. -/
structure EndsGroups (cs : List Char) : Prop where
  digits : EndsDigits cs
  point : cs.head? ≠ some '.'
  group : ∀ isFirst, (separator? isFirst cs).bind group? = none
  numbers : ∀ isFirst, (separator? isFirst cs).bind IPv4.read? = none

theorem endsGroups_cons {c : Char} (h : Digits.value? 16 c = none) (hp : c ≠ '.') (hc : c ≠ ':')
    (cs : List Char) : EndsGroups (c :: cs) where
  digits := endsDigits_cons h cs
  point := by simpa using hp
  group
    | true => by simp [separator?, group?, Digits.leading, h]
    | false => by simp [separator?, character?, hc]
  numbers
    | true => IPv4.read?_eq_none (by simpa [Digits.leading, Digits.value?_eq_none h] using hp)
    | false => by simp [separator?, character?, hc]

theorem endsGroups_colons (cs : List Char) : EndsGroups (':' :: ':' :: cs) where
  digits := endsDigits_cons (by decide) _
  point := by simp
  group
    | true => rfl
    | false => rfl
  numbers
    | true => IPv4.read?_eq_none (by simp [Digits.leading, Digits.value?])
    | false => IPv4.read?_eq_none (by simp [Digits.leading, Digits.value?])

theorem group?_toDigits (g : UInt16) (hrest : EndsDigits rest) :
    group? (Nat.toDigits 16 g.toNat ++ rest) = some (g, rest) := by
  obtain ⟨d, ds, hchars, hlt, hnum, -⟩ :=
    Digits.exists_digits (by decide : 1 < 16) g.toNat
  have hl : (d :: ds).length ≤ 4 := by
    have := (Nat.length_toDigits_le_iff (b := 16) (k := 4) (by decide) (by decide)).2 g.toNat_lt
    rwa [hchars, List.length_map] at this
  rw [group?, hchars, Digits.leading_digitChars (by decide) hlt hrest]
  simp only [if_pos hl, hnum, UInt16.ofNat_toNat]

/-- A group is not taken for a number of the fourth version. -/
theorem numbers_toDigits (g : UInt16) (hrest : EndsDigits rest) (hp : rest.head? ≠ some '.') :
    IPv4.read? (Nat.toDigits 16 g.toNat ++ rest) = none := by
  obtain ⟨d, ds, hchars, hlt, -, -⟩ := Digits.exists_digits (by decide : 1 < 16) g.toNat
  have point : ∀ e < 16, Nat.digitChar e ≠ '.' := by decide
  have after (es : List Nat) (hes : ∀ e ∈ es, e < 16) :
      (Digits.leading 10 (es.map Nat.digitChar ++ rest)).2.head? ≠ some '.' := by
    induction es with
    | nil =>
      have hl : Digits.leading 10 ([].map Nat.digitChar ++ rest) = ([], rest) :=
        Digits.leading_digitChars (by decide) nofun (hrest.value?_eq_none 10)
      rw [hl]
      exact hp
    | cons e es ih =>
      rw [List.map_cons, List.cons_append, Digits.leading]
      split
      · exact ih fun f hf => hes f (List.mem_cons_of_mem e hf)
      · simp [point e (hes e List.mem_cons_self)]
  rw [hchars]
  exact IPv4.read?_eq_none (after _ hlt)

/-- Groups with colons between them, and one in front of them unless they come first. -/
def letters (isFirst : Bool) : List UInt16 → List Char
  | [] => []
  | g :: gs => (if isFirst then [] else [':']) ++ (Nat.toDigits 16 g.toNat ++ letters false gs)

theorem toList_groupsText (gs : List UInt16) : (groupsText gs).toList = letters true gs := by
  have hcons (g : UInt16) (gs : List UInt16) :
      [':'].intercalate ((g :: gs).map fun g => Nat.toDigits 16 g.toNat) =
        Nat.toDigits 16 g.toNat ++ letters false gs := by
    induction gs generalizing g with
    | nil => simp [letters]
    | cons h gs ih =>
      have hi := ih h
      rw [List.map_cons] at hi
      rw [List.map_cons, List.map_cons, List.intercalate_cons_cons, hi]
      simp [letters]
  rw [groupsText, String.toList_intercalate, List.map_map]
  cases gs with
  | nil => rfl
  | cons g gs => simpa [letters, groupText, Function.comp_def] using hcons g gs

/-- Groups are read up to their end, where there is room for them. -/
theorem readGroups_letters {gs : List UInt16} {room : Nat} (hr : gs.length ≤ room) (isFirst : Bool)
    (hrest : EndsGroups rest) :
    readGroups isFirst room (letters isFirst gs ++ rest) = ⟨gs, false, rest⟩ := by
  induction gs generalizing room isFirst with
  | nil =>
    cases room with
    | zero => rfl
    | succ room => simp [readGroups, letters, hrest.group, hrest.numbers]
  | cons g gs ih =>
    obtain ⟨room, rfl⟩ : ∃ r, room = r + 1 := Nat.exists_eq_add_one.2 (by simp at hr; omega)
    -- behind the group there is the colon of the next one, or the end
    obtain ⟨hdigits, hpoint⟩ : EndsDigits (letters false gs ++ rest) ∧
        (letters false gs ++ rest).head? ≠ some '.' := by
      cases gs with
      | nil => exact ⟨hrest.digits, hrest.point⟩
      | cons h gs => exact ⟨endsDigits_cons (by decide) _, by simp [letters]⟩
    have hsep : separator? isFirst (letters isFirst (g :: gs) ++ rest) =
        some (Nat.toDigits 16 g.toNat ++ (letters false gs ++ rest)) := by
      cases isFirst <;> simp [separator?, letters, character?]
    rw [readGroups, hsep]
    simp only [Option.bind_some, numbers_toDigits g hdigits hpoint, group?_toDigits g hdigits,
      ite_self, ih (Nat.le_of_succ_le_succ hr) false]

/-! ## Rows of zeros -/

/-- The groups of a row are zeros. -/
def IsZeroRow (gs : List UInt16) (row : ZeroRow) : Prop :=
  ∀ i, row.start ≤ i → i < row.start + row.length → gs[i]? = some 0

theorem isZeroRow_empty (gs : List UInt16) : IsZeroRow gs ⟨0, 0⟩ := fun i _ hi => by simp at hi

theorem isZeroRow_longestZeros {all gs : List UInt16} {index : Nat} {current best : ZeroRow}
    (hgs : gs = all.drop index) (hc : IsZeroRow all current)
    (hend : current.length ≠ 0 → current.start + current.length = index)
    (hb : IsZeroRow all best) : IsZeroRow all (longestZeros index current best gs) := by
  induction gs generalizing index current best with
  | nil => exact hb
  | cons g gs ih =>
    have hrest : gs = all.drop (index + 1) := by
      rw [← List.tail_drop, ← hgs, List.tail_cons]
    have hg : all[index]? = some g := by
      rw [← List.head?_drop, ← hgs, List.head?_cons]
    rw [longestZeros]
    split
    · next hzero =>
      subst hzero
      let row : ZeroRow :=
        if current.length = 0 then ⟨index, 1⟩ else ⟨current.start, current.length + 1⟩
      have hrow : IsZeroRow all row ∧ row.start + row.length = index + 1 := by
        simp only [row]
        split
        · refine ⟨fun i hi hi' => ?_, rfl⟩
          obtain rfl : i = index := by simp at hi hi'; omega
          exact hg
        · next hne =>
          have := hend hne
          refine ⟨fun i hi hi' => ?_, by simp; omega⟩
          simp only at hi hi'
          rcases Nat.lt_or_ge i index with hlt | hge
          · exact hc i hi (by omega)
          · obtain rfl : i = index := by omega
            exact hg
      show IsZeroRow all
        (longestZeros (index + 1) row (if best.length < row.length then row else best) gs)
      clear_value row
      refine ih hrest hrow.1 (fun _ => hrow.2) ?_
      split
      · exact hrow.1
      · exact hb
    · exact ih hrest (isZeroRow_empty all) (fun h => absurd rfl h) hb

/-- What is left out for a row is put back by as many zeros. -/
theorem IsZeroRow.put_back {gs : List UInt16} {row : ZeroRow} (h : IsZeroRow gs row)
    (hpos : 0 < row.length) :
    row.start + row.length ≤ gs.length ∧
      gs.take row.start ++ List.replicate row.length 0 ++
        gs.drop (row.start + row.length) = gs := by
  have hle : row.start + row.length ≤ gs.length := by
    have := h (row.start + row.length - 1) (by omega) (by omega)
    have := (List.getElem?_eq_some_iff.1 this).1
    omega
  have hmid : List.replicate row.length 0 = (gs.drop row.start).take row.length := by
    symm
    rw [List.eq_replicate_iff]
    refine ⟨by simp; omega, fun g hg => ?_⟩
    obtain ⟨i, hi, rfl⟩ := List.getElem_of_mem hg
    simp only [List.length_take, List.length_drop] at hi
    have := h (row.start + i) (by omega) (by omega)
    rw [List.getElem?_eq_some_iff] at this
    simpa using this.2
  refine ⟨hle, ?_⟩
  rw [hmid, List.append_assoc, ← List.drop_drop, List.take_append_drop, List.take_append_drop]

/-! ## The sixth version -/

theorem ofGroups?_groups (a : IPv6) : ofGroups? a.groups = some a := by
  rw [ofGroups?, dif_pos a.eight]

theorem read?_of_full (a : IPv6) (hrest : EndsGroups rest) :
    read? (letters true a.groups ++ rest) = some (a, rest) := by
  rw [read?, readGroups_letters (Nat.le_of_eq a.eight) true hrest]
  simp [a.eight, ofGroups?_groups]

/-- Two colons stand for the groups that are missing. -/
theorem read?_of_colons (a : IPv6) {front back : List UInt16} {endsInNumbers : Bool}
    {behind : List Char} {left : Nat} (hl : 0 < left)
    (hgs : front ++ List.replicate left 0 ++ back = a.groups)
    (hback : readGroups true (7 - front.length) behind = ⟨back, endsInNumbers, rest⟩) :
    read? (letters true front ++ (':' :: ':' :: behind)) = some (a, rest) := by
  have hlen : front.length + left + back.length = 8 := by
    have := congrArg List.length hgs
    rw [a.eight] at this
    simp at this
    omega
  have hleft : 8 - front.length - back.length = left := by omega
  have hne : front.length ≠ 8 := by omega
  rw [read?, readGroups_letters (by omega) true (endsGroups_colons behind)]
  simp only [if_neg hne, Bool.false_eq_true, if_false, character?, if_true, Option.bind_eq_bind,
    Option.bind_some, hback, hleft, hgs, ofGroups?_groups, Option.pure_def]

/-- Two bytes make the group that they were taken from. -/
theorem group_of_bytes (g : UInt16) :
    (g >>> 8).toUInt8.toUInt16 <<< 8 ||| g.toUInt8.toUInt16 = g := by
  apply UInt16.toNat_inj.1
  have hg := g.toNat_lt
  have hshift : g.toNat >>> 8 = g.toNat / 256 := Nat.shiftRight_eq_div_pow _ 8
  have hsmall : (g.toNat / 256 % 256) <<< 8 < 65536 := by
    rw [Nat.shiftLeft_eq]
    omega
  simp only [UInt16.toNat_or, UInt16.toNat_shiftLeft, UInt8.toNat_toUInt16, UInt16.toNat_toUInt8,
    UInt16.toNat_shiftRight]
  simp only [UInt16.reduceToNat, Nat.reduceMod, Nat.reducePow, hshift]
  rw [Nat.mod_eq_of_lt hsmall,
    ← Nat.shiftLeft_add_eq_or_of_lt (i := 8) (Nat.mod_lt g.toNat (by decide)), Nat.shiftLeft_eq]
  omega

/-- An address that stands for one of the fourth version ends in its numbers. -/
theorem readGroups_numbers (high low : UInt16) (hrest : EndsDigits rest) :
    readGroups true 7 ('f' :: 'f' :: 'f' :: 'f' :: ':' ::
        ((IPv4.ofGroups high low).text.toList ++ rest)) =
      ⟨[0xFFFF, high, low], true, rest⟩ := by
  have hnone (cs : List Char) : IPv4.read? ('f' :: cs) = none :=
    IPv4.read?_eq_none (by simp [Digits.leading, Digits.value?])
  have hgroup (cs : List Char) :
      group? ('f' :: 'f' :: 'f' :: 'f' :: ':' :: cs) = some (0xFFFF, ':' :: cs) := by
    simp [group?, Digits.leading, Digits.value?, Digits.number]
  rw [readGroups]
  simp only [separator?, if_true, Option.bind_some, hnone, hgroup, ite_self]
  rw [readGroups]
  simp only [separator?, character?, Bool.false_eq_true, if_false, if_true, Option.bind_some,
    IPv4.read?_text _ hrest, IPv4.ofGroups, group_of_bytes, Nat.reduceEqDiff]

theorem read?_text (a : IPv6) (hrest : EndsGroups rest) :
    read? (a.text.toList ++ rest) = some (a, rest) := by
  unfold text
  split
  · next high low hgs =>
    have htext : ("::ffff:" ++ (IPv4.ofGroups high low).text).toList ++ rest =
        letters true [] ++ (':' :: ':' :: 'f' :: 'f' :: 'f' :: 'f' :: ':' ::
          ((IPv4.ofGroups high low).text.toList ++ rest)) := by
      simp [letters]
    rw [htext]
    exact read?_of_colons a (by decide : 0 < 5) hgs.symm
      (readGroups_numbers high low hrest.digits)
  · have hrow : IsZeroRow a.groups (longestZeros 0 ⟨0, 0⟩ ⟨0, 0⟩ a.groups) :=
      isZeroRow_longestZeros rfl (isZeroRow_empty _) (fun h => absurd rfl h) (isZeroRow_empty _)
    dsimp only
    generalize longestZeros 0 ⟨0, 0⟩ ⟨0, 0⟩ a.groups = row at hrow
    split
    · next hlong =>
      obtain ⟨hle, hgs⟩ := hrow.put_back (by omega)
      have height := a.eight
      simp only [String.toList_append, toList_groupsText, List.append_assoc]
      refine read?_of_colons a (by omega) hgs (readGroups_letters ?_ true hrest)
      simp only [List.length_drop, List.length_take]
      omega
    · rw [toList_groupsText]
      exact read?_of_full a hrest

end IPv6

/-! ## Socket addresses -/

namespace SocketAddress

theorem port?_toDigits (port : UInt16) :
    port? (':' :: Nat.toDigits 10 port.toNat) = some (port, []) := by
  have hn : boundedNumber? UInt16.size (Nat.toDigits 10 port.toNat ++ []) =
      some (port.toNat, []) := boundedNumber?_toDigits port.toNat_lt nofun
  rw [List.append_nil] at hn
  simp [port?, character?, hn]

theorem readV4?_text (host : IPv4) (port : UInt16) :
    readV4? (v4 host port).text.toList = some (v4 host port, []) := by
  simp only [text, String.toList_append, Nat.toList_repr, List.append_assoc]
  have hcolon : EndsDigits (":".toList ++ Nat.toDigits 10 port.toNat) :=
    endsDigits_cons (by decide) _
  rw [readV4?, IPv4.read?_text host hcolon]
  simp [port?_toDigits]

theorem readV6?_text (host : IPv6) (scope : UInt32) (port : UInt16) :
    readV6? (v6 host scope port).text.toList = some (v6 host scope port, []) := by
  have hend (c : Char) (cs : List Char) (h : c = ']' ∨ c = '%') : IPv6.EndsGroups (c :: cs) := by
    rcases h with rfl | rfl <;> exact IPv6.endsGroups_cons (by decide) (by decide) (by decide) cs
  rw [readV6?, text]
  split
  · next hzero =>
    subst hzero
    simp [character?, IPv6.read?_text host (hend _ _ (.inl rfl)), SocketAddress.scope,
      port?_toDigits]
  · have hscope (cs : List Char) :
        boundedNumber? UInt32.size (Nat.toDigits 10 scope.toNat ++ ']' :: cs) =
          some (scope.toNat, ']' :: cs) :=
      boundedNumber?_toDigits scope.toNat_lt (endsDigits_cons (by decide) cs)
    simp [character?, IPv6.read?_text host (hend _ _ (.inr rfl)), SocketAddress.scope, hscope,
      port?_toDigits]

/-- **An address is read from its text.** -/
theorem ofText?_text (a : SocketAddress) : ofText? a.text = some a := by
  cases a with
  | v4 host port =>
    rw [ofText?, readV4?_text]
    rfl
  | v6 host scope port =>
    have hbracket : readV4? (v6 host scope port).text.toList = none := by
      simp [text, readV4?, IPv4.read?_eq_none, Digits.leading, Digits.value?]
    rw [ofText?, hbracket, readV6?_text]
    rfl

end SocketAddress
end PacketRpc
