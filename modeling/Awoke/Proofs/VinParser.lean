/-
When a vehicle identification number is parsed right.

The cursor is moved over the manufacturer only if that was found: for any other number the
descriptor section is taken from the first character on, and the indicator section follows it.
And `vincoun_offset` counts the countries, of which one stands in the table twice, but not the
row for an unknown one, so that the last row of the table is never looked at.  What is left is the
three manufacturers of the table, and none of their codes begins as that row does.
-/
import Awoke.Vin.Parser
import Mathlib.Data.List.Infix

namespace Awoke.Vin

/-- The row of a table whose code the text begins with, or the unknown section if there is none. -/
def Picks (table : List Section) (text : List Char) (s : Section) : Prop :=
  (s ∈ table ∧ s.code.toList <+: text) ∨
    (∀ row ∈ table, ¬row.code.toList <+: text) ∧ s = unknownSection

/-- The table of model lines for a manufacturer. -/
def modelinTable (manuid : Nat) : List Section :=
  ((manu2vdsMap.find? fun p => p.manuid = manuid).bind Vinmanu2vds.tbVds).getD []

/-- The table of body types for a manufacturer. -/
def bodytypTable (manuid : Nat) : List Section :=
  ((manu2vdsMap.find? fun p => p.manuid = manuid).bind Vinmanu2vds.tbBt).getD []

/-- What the sections of a number should be: the descriptor section is characters 4 to 9, the
indicator section 10 to 17, and each of the others is what the whole table says. -/
structure ParsesRight (vin : List Char) (vi : Vininfo) : Prop where
  vds : vi.vds = some { p := 3, len := 6 }
  vis : vi.vis = some { p := 9, len := 8 }
  country : Picks countryTable vin vi.country
  manufac : Picks manufacTable vin vi.manufac
  modelin : Picks (modelinTable vi.manufac.id) (vin.drop 3) vi.modelin
  bodytyp : Picks (bodytypTable vi.manufac.id) (vin.drop 3) vi.bodytyp

/-- It is that of a manufacturer in the table. -/
def KnownManufac (vin : List Char) : Prop := ∃ code ∈ ["LSG", "LDC", "PNA"], code.toList <+: vin

/-! ### Sections -/

theorem sectionFind_some {table : List Section} {size : Nat} {text : List Char} {s : Section}
    (h : sectionFind table size text = some s) :
    s ∈ table.take size ∧ s.code.toList <+: text := by
  have hcode : s.code.toList.isPrefixOf text :=
    List.find?_some (p := fun row : Section => row.code.toList.isPrefixOf text) h
  exact ⟨List.mem_of_find?_eq_some h, List.isPrefixOf_iff_prefix.mp hcode⟩

theorem sectionFind_none {table : List Section} {size : Nat} {text : List Char}
    (h : sectionFind table size text = none) :
    ∀ row ∈ table.take size, ¬row.code.toList <+: text := by
  intro row hrow hpre
  exact List.find?_eq_none.mp h row hrow (List.isPrefixOf_iff_prefix.mpr hpre)

theorem sectionFind_picks {table : List Section} {size : Nat} {text : List Char}
    (hrest : ∀ row ∈ table.drop size, ¬row.code.toList <+: text) :
    Picks table text ((sectionFind table size text).getD unknownSection) := by
  cases h : sectionFind table size text with
  | none =>
      refine .inr ⟨fun row hrow => ?_, rfl⟩
      rw [← List.take_append_drop size table, List.mem_append] at hrow
      exact hrow.elim (sectionFind_none h row) (hrest row)
  | some s => exact .inl ⟨List.mem_of_mem_take (sectionFind_some h).1, (sectionFind_some h).2⟩

/-! ### What is parsed -/

theorem vpYear_eq {now : Int} {vi vi' : Vininfo} (h : vpYear now vi = some vi') :
    ∃ year, vi' = { vi with year := year } := by
  obtain ⟨continent, -, rfl⟩ := Option.map_eq_some_iff.mp h
  refine List.foldlRecOn (motive := fun v : Vininfo => ∃ year, v = { vi with year := year }) _ _
    ⟨vi.year, rfl⟩ ?_
  rintro _ ⟨year, rfl⟩ i _
  simp only
  split
  · exact ⟨_, rfl⟩
  · exact ⟨year, rfl⟩

theorem vpYear_some (now : Int) {vi : Vininfo} {continent : List Char}
    (h : vi.continent = some continent) : ∃ vi', vpYear now vi = some vi' := by
  rw [vpYear, h]
  exact ⟨_, rfl⟩

/-- How far the cursor is moved for the manufacturer. -/
def manufacLen (vin : List Char) : Nat :=
  match sectionFind manufacTable Vinmanu.offset.ctorIdx vin with
  | none => 0
  | some _ => 3

theorem tableFind_picks {table : Option (List Section)} {size : Nat} {text : List Char}
    (hsize : (table.getD []).length ≤ size) :
    Picks (table.getD []) text ((tableFind table size text).getD unknownSection) := by
  cases table with
  | none => exact .inr ⟨fun row hrow => absurd hrow List.not_mem_nil, rfl⟩
  | some head =>
      refine sectionFind_picks fun row hrow => ?_
      rw [List.drop_eq_nil_of_le hsize] at hrow
      exact absurd hrow List.not_mem_nil

/-- The tables in the map are looked at whole. -/
theorem vpMode_picks (vds : List Char) (vi : Vininfo) (hmodelin : vi.modelin = unknownSection)
    (hbodytyp : vi.bodytyp = unknownSection) :
    ∃ modelin bodytyp, vpMode vds vi = { vi with modelin := modelin, bodytyp := bodytyp } ∧
      Picks (modelinTable vi.manufac.id) vds modelin ∧
      Picks (bodytypTable vi.manufac.id) vds bodytyp := by
  have hsizes : ∀ map ∈ manu2vdsMap, (map.tbVds.getD []).length ≤ map.tbVdsSize ∧
      (map.tbBt.getD []).length ≤ map.tbBtSize := by decide
  have hmap : vpMaun2vdsMap vi = manu2vdsMap.find? fun p => p.manuid = vi.manufac.id := by rfl
  rw [vpMode, modelinTable, bodytypTable, ← hmap]
  cases hfound : vpMaun2vdsMap vi with
  | none =>
      refine ⟨vi.modelin, vi.bodytyp, rfl, .inr ⟨?_, hmodelin⟩, .inr ⟨?_, hbodytyp⟩⟩
      · exact fun row hrow => absurd hrow List.not_mem_nil
      · exact fun row hrow => absurd hrow List.not_mem_nil
  | some map =>
      obtain ⟨hvds, hbt⟩ := hsizes map (List.mem_of_find?_eq_some (hmap ▸ hfound))
      refine ⟨(tableFind map.tbVds map.tbVdsSize vds).getD vi.modelin,
        (tableFind map.tbBt map.tbBtSize vds).getD vi.bodytyp, ?_,
        hmodelin.symm ▸ tableFind_picks hvds, hbodytyp.symm ▸ tableFind_picks hbt⟩
      simp only
      cases tableFind map.tbVds map.tbVdsSize vds with
      | none =>
          cases tableFind map.tbBt map.tbBtSize vds with
          | none => rfl
          | some s => rfl
      | some s =>
          cases tableFind map.tbBt map.tbBtSize vds with
          | none => rfl
          | some s => rfl

theorem vpContinent_eq (vp : VinParser) (vi : Vininfo) :
    ∃ continent, vpContinent vp vi = { vi with continent := continent } := by
  rw [vpContinent]
  split
  · exact ⟨_, rfl⟩
  · split_ifs
    all_goals exact ⟨_, rfl⟩

theorem vpCountry_eq (vin : List Char) (vi : Vininfo) :
    vpCountry { vin := vin, pos := 0 } vi = { vi with
      country := (sectionFind countryTable Vincoun.offset.ctorIdx vin).getD vi.country } := by
  rw [vpCountry, List.drop_zero]
  cases sectionFind countryTable Vincoun.offset.ctorIdx vin with
  | none => rfl
  | some s => rfl

theorem vpManufac_eq (vin : List Char) (vi : Vininfo) :
    vpManufac { vin := vin, pos := 0 } vi = ({ vin := vin, pos := manufacLen vin },
      { vi with manufac :=
        (sectionFind manufacTable Vinmanu.offset.ctorIdx vin).getD vi.manufac }) := by
  rw [vpManufac, manufacLen, List.drop_zero]
  cases sectionFind manufacTable Vinmanu.offset.ctorIdx vin with
  | none => rfl
  | some s => rfl

theorem vpVds_picks (vp : VinParser) (vi : Vininfo) (hmodelin : vi.modelin = unknownSection)
    (hbodytyp : vi.bodytyp = unknownSection) :
    ∃ modelin bodytyp,
      vpVds vp vi = ({ vp with pos := vp.pos + 6 },
        { vi with
          vds := some { p := vp.pos, len := 6 }, modelin := modelin, bodytyp := bodytyp }) ∧
      Picks (modelinTable vi.manufac.id) (vp.vin.drop vp.pos) modelin ∧
      Picks (bodytypTable vi.manufac.id) (vp.vin.drop vp.pos) bodytyp := by
  obtain ⟨modelin, bodytyp, hmode, hpicks⟩ := vpMode_picks (vp.vin.drop vp.pos)
    { vi with vds := some { p := vp.pos, len := 6 } } hmodelin hbodytyp
  refine ⟨modelin, bodytyp, ?_, hpicks⟩
  rw [vpVds, hmode]

/-- The country of a number, as it is looked up. -/
def countryOf (vin : List Char) : Section :=
  (sectionFind countryTable Vincoun.offset.ctorIdx vin).getD unknownSection

/-- The manufacturer of a number, as it is looked up. -/
def manufacOf (vin : List Char) : Section :=
  (sectionFind manufacTable Vinmanu.offset.ctorIdx vin).getD unknownSection

/-- **What a number is parsed to.** -/
theorem vinParse_eq {now : Int} {vin : List Char} {vi : Vininfo}
    (h : vinParse now vin = some vi) :
    vi.vds = some { p := manufacLen vin, len := 6 } ∧
      vi.vis = some { p := manufacLen vin + 6, len := 8 } ∧
      vi.country = countryOf vin ∧ vi.manufac = manufacOf vin ∧
      Picks (modelinTable vi.manufac.id) (vin.drop (manufacLen vin)) vi.modelin ∧
      Picks (bodytypTable vi.manufac.id) (vin.drop (manufacLen vin)) vi.bodytyp := by
  obtain ⟨continent, hcontinent⟩ :=
    vpContinent_eq { vin := vin, pos := 0 } (vininfoInit { vin := vin, pos := 0 })
  -- what was looked up so far has to stay closed for the rest to be read off
  generalize hcountry : countryOf vin = country
  generalize hmanufac : manufacOf vin = manufac
  have hparsed : ∃ year, vi = { (vpVds { vin := vin, pos := manufacLen vin }
      { vininfoInit { vin := vin, pos := 0 } with
        continent := continent, country := country, manufac := manufac }).2 with
      vis := some { p := manufacLen vin + 6, len := 8 }, year := year } := by
    rw [vinParse, hcontinent, vpCountry_eq, vpManufac_eq] at h
    subst hcountry hmanufac
    exact vpYear_eq h
  obtain ⟨year, rfl⟩ := hparsed
  obtain ⟨modelin, bodytyp, hvds, hmodelin, hbodytyp⟩ := vpVds_picks
    { vin := vin, pos := manufacLen vin }
    { vininfoInit { vin := vin, pos := 0 } with
      continent := continent, country := country, manufac := manufac } rfl rfl
  rw [hvds]
  exact ⟨rfl, rfl, rfl, rfl, hmodelin, hbodytyp⟩

/-! ### The manufacturers -/

theorem not_unknown {vin : List Char} (hchars : ∀ c ∈ vin, c ∈ chars) :
    ¬unknownSection.code.toList <+: vin := by
  intro h
  have : '?' ∈ chars := hchars '?' (h.subset (by decide))
  exact absurd this (by decide)

/-- The cursor is moved for the manufacturers of the table only. -/
theorem manufacLen_eq_three {vin : List Char} (hchars : ∀ c ∈ vin, c ∈ chars) :
    manufacLen vin = 3 ↔ KnownManufac vin := by
  rw [manufacLen]
  cases h : sectionFind manufacTable Vinmanu.offset.ctorIdx vin with
  | none =>
      refine ⟨fun h3 => absurd h3 (by decide), fun ⟨code, hcode, hpre⟩ => ?_⟩
      have hrow : ∀ code ∈ ["LSG", "LDC", "PNA"],
          ∃ row ∈ manufacTable.take Vinmanu.offset.ctorIdx, row.code = code := by decide
      obtain ⟨row, hmem, rfl⟩ := hrow code hcode
      exact absurd hpre (sectionFind_none h row hmem)
  | some s =>
      refine ⟨fun _ => ?_, fun _ => rfl⟩
      obtain ⟨hmem, hpre⟩ := sectionFind_some h
      have hrow : ∀ row ∈ manufacTable.take Vinmanu.offset.ctorIdx,
          row = unknownSection ∨ row.code ∈ ["LSG", "LDC", "PNA"] := by decide
      rcases hrow s hmem with rfl | hcode
      · exact absurd hpre (not_unknown hchars)
      · exact ⟨s.code, hcode, hpre⟩

theorem KnownManufac.head {vin : List Char} (h : KnownManufac vin) :
    ∃ rest, vin = 'L' :: rest ∨ vin = 'P' :: rest := by
  obtain ⟨code, hcode, rest, rfl⟩ := h
  rcases List.mem_cons.mp hcode with rfl | hcode
  · exact ⟨_, .inl rfl⟩
  rcases List.mem_cons.mp hcode with rfl | hcode
  · exact ⟨_, .inl rfl⟩
  rw [List.mem_singleton.mp hcode]
  exact ⟨_, .inr rfl⟩

/-- The continent is set for them, so that the year can be found. -/
theorem vinParse_isSome (now : Int) {vin : List Char} (h : KnownManufac vin) :
    ∃ vi, vinParse now vin = some vi := by
  have hasia : vpContinent { vin := vin, pos := 0 } (vininfoInit { vin := vin, pos := 0 }) =
      { vininfoInit { vin := vin, pos := 0 } with continent := some "Asia".toList } := by
    obtain ⟨rest, rfl | rfl⟩ := h.head
    · rfl
    · rfl
  generalize hcountry : countryOf vin = country
  generalize hmanufac : manufacOf vin = manufac
  obtain ⟨modelin, bodytyp, hvds, -⟩ := vpVds_picks { vin := vin, pos := manufacLen vin }
    { vininfoInit { vin := vin, pos := 0 } with
      continent := some "Asia".toList, country := country, manufac := manufac } rfl rfl
  have hparsed : vinParse now vin = vpVis now
      (vpVds { vin := vin, pos := manufacLen vin }
        { vininfoInit { vin := vin, pos := 0 } with
          continent := some "Asia".toList, country := country, manufac := manufac }).1
      (vpVds { vin := vin, pos := manufacLen vin }
        { vininfoInit { vin := vin, pos := 0 } with
          continent := some "Asia".toList, country := country, manufac := manufac }).2 := by
    rw [vinParse, hasia, vpCountry_eq, vpManufac_eq]
    subst hcountry hmanufac
    rfl
  rw [hparsed, hvds]
  exact vpYear_some now rfl

theorem countryOf_picks {vin : List Char} (h : KnownManufac vin) :
    Picks countryTable vin (countryOf vin) := by
  refine sectionFind_picks fun row hrow hpre => ?_
  have hitaly : ∀ row ∈ countryTable.drop Vincoun.offset.ctorIdx, row.code = "Z" := by decide
  rw [hitaly row hrow] at hpre
  obtain ⟨rest, rfl | rfl⟩ := h.head
  · exact absurd (List.cons_prefix_cons.mp hpre).1 (by decide)
  · exact absurd (List.cons_prefix_cons.mp hpre).1 (by decide)

/-- **A number is parsed right exactly when its manufacturer is in the table.** -/
theorem vin_iff (now : Int) (vin : List Char)
    (hchars : ∀ c ∈ vin, c ∈ chars) :
    (∃ vi, vinParse now vin = some vi ∧ ParsesRight vin vi) ↔ KnownManufac vin := by
  rw [← manufacLen_eq_three hchars]
  constructor
  · rintro ⟨vi, hparse, hright⟩
    obtain ⟨hvds, -⟩ := vinParse_eq hparse
    have hcut : (⟨manufacLen vin, 6⟩ : MemPtr) = ⟨3, 6⟩ :=
      Option.some_inj.mp (hvds.symm.trans hright.vds)
    exact congrArg MemPtr.p hcut
  · intro hthree
    have hknown := (manufacLen_eq_three hchars).mp hthree
    obtain ⟨vi, hparse⟩ := vinParse_isSome now hknown
    obtain ⟨hvds, hvis, hcountry, hmanufac, hmodelin, hbodytyp⟩ := vinParse_eq hparse
    rw [hthree] at hvds hvis hmodelin hbodytyp
    refine ⟨vi, hparse, hvds, hvis, hcountry ▸ countryOf_picks hknown, hmanufac ▸ ?_, hmodelin,
      hbodytyp⟩
    exact sectionFind_picks fun row hrow => absurd hrow List.not_mem_nil

theorem mem_chars_of_all {vin : List Char} (h : vin.all fun c => c ∈ chars) :
    ∀ c ∈ vin, c ∈ chars := by
  simpa using h

theorem vin_iff_dpca : ∃ vi, vinParse 2019 "LDC913L21A0024563".toList = some vi ∧
    ParsesRight "LDC913L21A0024563".toList vi :=
  (vin_iff 2019 _ (mem_chars_of_all (by decide))).mpr ⟨"LDC", by decide, by decide⟩

/-- The number of a car from Italy, whose manufacturer is not in the table. -/
theorem vin_shifted : "ZFA22300005556777".toList.length = 17 ∧
    (∀ c ∈ "ZFA22300005556777".toList, c ∈ chars) ∧
    ∃ vi, vinParse 2019 "ZFA22300005556777".toList = some vi ∧
      vi.vds = some { p := 0, len := 6 } ∧ vi.country = unknownSection ∧
      ¬ParsesRight "ZFA22300005556777".toList vi := by
  have hparse : ∃ vi, vinParse 2019 "ZFA22300005556777".toList = some vi :=
    Option.isSome_iff_exists.mp (by decide)
  obtain ⟨vi, hparse⟩ := hparse
  obtain ⟨hvds, -, hcountry, -⟩ := vinParse_eq hparse
  have hlen : manufacLen "ZFA22300005556777".toList = 0 := by decide
  rw [hlen] at hvds
  refine ⟨by decide, mem_chars_of_all (by decide), vi, hparse, hvds, ?_, fun hright => ?_⟩
  · rw [hcountry]
    decide
  · have hcut := hvds.symm.trans hright.vds
    exact absurd hcut (by decide)

end Awoke.Vin
