import LinkState.PlainText

/-!
# The text of an LSA makes the trip

`content_round_trip`: what `getData` writes, `initializeFromContent` reads back, whatever bytes
follow it. Two things of the written LSA do not make the trip. The type string is always the one
of the kind, not the one the LSA carries; and the count of a list is read into 32 bits, so a
longer list is not read at all (`not_trip_exactly`).
-/

namespace LinkState

/-- The header read is the header written, with the type string of the kind. -/
structure Lsa.MadeTrip (l l' : Lsa) (typeString : String) : Prop where
  lsType : l'.lsType = typeString
  origRouter : l'.origRouter = l.origRouter
  lsSeqNo : l'.lsSeqNo = l.lsSeqNo
  expirationTimePoint : l'.expirationTimePoint = l.expirationTimePoint

/-- What an adjacent is worth to the other routers. -/
def Adjacent.written (a : Adjacent) : Name × String × Nat :=
  (a.name, a.connectingFaceUri, a.getLinkCost)

theorem Adjacent.written_asRead (a : Adjacent) : a.asRead.written = a.written := by
  simp only [written, asRead, getLinkCost, Int.ceil_natCast, Int.toNat_natCast]

/-- The expiration point is in whole microseconds and there is an origin. -/
structure Lsa.Writable (l : Lsa) : Prop where
  origRouter : l.origRouter ≠ []
  expirationTimePoint : 1000 ∣ l.expirationTimePoint

/-- **The text codec round trip**, for lists the 32 bits of the count can count. -/
theorem content_round_trip (lib : TextLib) (h : lib.RoundTrips) (rest : Text) :
    (∀ l : NameLsa, l.Writable → l.npl.size < 2 ^ 32 →
      ∃ l', NameLsa.initializeFromContent lib (l.getData lib ++ rest) = .ok l' ∧
        l.MadeTrip l'.toLsa NameLsa.typeString ∧ l'.npl.toList = l.npl.toList) ∧
    (∀ l : AdjLsa, l.Writable → l.adl.UrisAreFields → l.adl.size < 2 ^ 32 →
      ∃ l', AdjLsa.initializeFromContent lib (l.getData lib ++ rest) = .ok l' ∧
        l.MadeTrip l'.toLsa AdjLsa.typeString ∧
        l'.adl.toList.map Adjacent.written = l.adl.toList.map Adjacent.written) ∧
    (∀ l : CoordinateLsa, l.Writable →
      ∃ l', CoordinateLsa.initializeFromContent lib (l.getData lib ++ rest) = .ok l' ∧
        l.MadeTrip l'.toLsa CoordinateLsa.typeString ∧
        l'.corRad = l.corRad ∧ l'.corTheta = l.corTheta) := by
  refine ⟨fun l hl hsize => ⟨l.asRead l.expirationTimePoint, ?_, ⟨rfl, rfl, rfl, rfl⟩, rfl⟩,
    fun l hl huris hsize => ⟨l.asRead l.expirationTimePoint, ?_, ⟨rfl, rfl, rfl, rfl⟩, ?_⟩,
    fun l hl => ⟨l.asRead l.expirationTimePoint, ?_, ⟨rfl, rfl, rfl, rfl⟩, rfl, rfl⟩⟩
  · rw [NameLsa.initializeFromContent_getData h, if_pos ⟨hl.origRouter, hsize⟩,
      h.fromIsoString_toIsoString _ hl.expirationTimePoint]
    rfl
  · rw [AdjLsa.initializeFromContent_getData h huris, if_pos ⟨hl.origRouter, hsize⟩,
      h.fromIsoString_toIsoString _ hl.expirationTimePoint]
    rfl
  · show (l.adl.toList.map Adjacent.asRead).map Adjacent.written = _
    rw [List.map_map]
    exact List.map_congr_left fun a _ => a.written_asRead
  · rw [CoordinateLsa.initializeFromContent_getData h, if_pos hl.origRouter,
      h.fromIsoString_toIsoString _ hl.expirationTimePoint]
    rfl

/-- An Adjacency LSA with a cost that is no whole number. -/
def halfCost : AdjLsa where
  origRouter := [⟨"net"⟩, ⟨"a"⟩]
  lsSeqNo := 7
  expirationTimePoint := 3600 * 1000000000
  adl := KeyedList.empty.insert
    { name := [⟨"net"⟩, ⟨"b"⟩], connectingFaceUri := "udp4://b", linkCost := 25 / 2 }

theorem content_round_trip_halfCost :
    halfCost.getData plainText =
        "/net/a|adjacency|7|19700101T010000|1|/net/b|udp4://b|13|".toList ∧
      (∃ l', AdjLsa.initializeFromContent plainText (halfCost.getData plainText ++ ['x', '|']) =
          .ok l' ∧ halfCost.MadeTrip l'.toLsa "adjacency" ∧
        l'.adl.toList.map Adjacent.written = [([⟨"net"⟩, ⟨"b"⟩], "udp4://b", 13)]) ∧
      (∃ l', NameLsa.initializeFromContent plainText
          (({ origRouter := [⟨"a"⟩] } : NameLsa).getData plainText ++ ['x', '|']) = .ok l' ∧
        l'.npl.toList = []) ∧
      ∃ l', CoordinateLsa.initializeFromContent plainText
          (({ origRouter := [⟨"a"⟩], corRad := 2 } : CoordinateLsa).getData plainText ++
            ['x', '|']) = .ok l' ∧ l'.corRad = 2 := by
  obtain ⟨hname, hadj, hcor⟩ := content_round_trip plainText roundTrips_plainText ['x', '|']
  refine ⟨by decide +kernel, ?_, ?_, ?_⟩
  · have huris : halfCost.adl.UrisAreFields := by
      intro a ha
      obtain rfl := List.mem_singleton.1 ha
      exact ⟨by decide, by decide⟩
    obtain ⟨l', hl', htrip, hwritten⟩ := hadj halfCost ⟨by decide, by decide⟩ huris (by decide)
    exact ⟨l', hl', htrip, hwritten.trans (by decide +kernel)⟩
  · obtain ⟨l', hl', -, hnames⟩ := hname { origRouter := [⟨"a"⟩] } ⟨by decide, by decide⟩
      (by decide)
    exact ⟨l', hl', hnames⟩
  · obtain ⟨l', hl', -, hrad, -⟩ := hcor { origRouter := [⟨"a"⟩], corRad := 2 }
      ⟨by decide, by decide⟩
    exact ⟨l', hl', hrad⟩

/-- So many different names. -/
def numberedNames (n : Nat) (h : n ≤ 2 ^ 64) : NamePrefixList where
  toList := (List.range n).map fun i => [Component.fromNumber (UInt64.ofNat i)]
  nodup := by
    rw [List.map_map]
    refine List.Nodup.map_on (fun i hi j hj hij => ?_) List.nodup_range
    have hcomp : Component.fromNumber (UInt64.ofNat i) = Component.fromNumber (UInt64.ofNat j) :=
      (List.cons.inj hij).1
    have hnum := congrArg Component.toNumber hcomp
    rw [Component.toNumber_fromNumber, Component.toNumber_fromNumber] at hnum
    have hnat := congrArg UInt64.toNat (Option.some.inj hnum)
    rw [List.mem_range] at hi hj
    rwa [UInt64.toNat_ofNat', UInt64.toNat_ofNat', Nat.mod_eq_of_lt (by omega),
      Nat.mod_eq_of_lt (by omega)] at hnat

theorem size_numberedNames (n : Nat) (h : n ≤ 2 ^ 64) : (numberedNames n h).size = n := by
  simp [numberedNames, KeyedList.size]

/-- A Name LSA with more names than its count can say. -/
def uncountable : NameLsa where
  origRouter := [⟨"a"⟩]
  npl := numberedNames (2 ^ 32) (by norm_num)

/-- A Name LSA that was read from a text with another type string. -/
def mislabelled : NameLsa where
  origRouter := [⟨"a"⟩]
  lsType := "adjacency"

theorem not_trip_exactly :
    (uncountable.Writable ∧ NameLsa.initializeFromContent plainText
        (uncountable.getData plainText ++ []) = .error .rejected) ∧
      mislabelled.Writable ∧ ∀ l', NameLsa.initializeFromContent plainText
        (mislabelled.getData plainText ++ []) = .ok l' → l'.lsType ≠ mislabelled.lsType := by
  refine ⟨⟨⟨by decide, by decide⟩, ?_⟩, ⟨by decide, by decide⟩, fun l' hl' => ?_⟩
  · rw [NameLsa.initializeFromContent_getData roundTrips_plainText, if_neg]
    rintro ⟨-, hsize⟩
    rw [uncountable, size_numberedNames] at hsize
    exact absurd hsize (Nat.lt_irrefl _)
  · rw [NameLsa.initializeFromContent_getData roundTrips_plainText,
      if_pos ⟨by decide, by decide⟩] at hl'
    obtain rfl : mislabelled.asRead _ = l' := Except.ok.inj hl'
    decide

end LinkState
