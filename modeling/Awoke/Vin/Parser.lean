/-
What a vehicle identification number says, `vin_parser.c` with the tables of `vin_manufac.c`.

A number is cut into sections with a cursor, and each section is looked up in a table whose codes
are prefixes.  How many rows of a table are looked at is not always the number of rows: some of
the sizes are the last member of an enumeration.

`vininfo_init` does not set the continent and the year, so these hold whatever was in memory;
`none` stands for that, and to compare such a continent has no result.  What year it is now is a
parameter.
-/
import Awoke.Error
import Mathlib.Data.UInt

namespace Awoke.Vin

/-! ### Enumerations -/

/-- `vincoun_e`. -/
inductive Vincoun
  | unknown | us | ca | mx | au | br | jp | gb | kr | ch | cn | fr | tw | de | se | it
  | offset

/-- `vinmanu_e`. -/
inductive Vinmanu
  | unknown | lsg | ldc | pna
  | offset

/-- `vinmode_peugeot_e`. -/
inductive VinmodePeugeot
  | unknown | p206 | p406508 | p407 | p308 | expert | p208 | p301 | p307 | partner
  | offset

/-- `vinbody_peugeot_e`. -/
inductive VinbodyPeugeot
  | unknown | d3ds | cab | d5ds | d4ds | est | e7s | hat | cou | d3dss | d5dss | d3dc | d5dc
  | offset

/-- `vinmode_dpca_e`. -/
inductive VinmodeDpca
  | unknown | n68 | t11 | t21 | t31 | t33 | r31 | r33 | b51 | b53 | bx3 | b73 | tx3 | t73 | t61
  | t63 | t88 | g25 | x7 | w23 | m33 | m43 | a94 | m44 | t91 | t93
  | offset

/-! ### Tables -/

/-- `vininfo_section`. -/
structure Section where
  code : String
  id : Nat
  string : String
  deriving DecidableEq

/-- `vin_unknown_section`. -/
def unknownSection : Section := { code := "?", id := 0, string := "Unknown" }

/-- `g_country_table`. -/
def countryTable : List Section :=
  [ unknownSection,
    { code := "1", id := Vincoun.us.ctorIdx, string := "USA" },
    { code := "2", id := Vincoun.ca.ctorIdx, string := "Canada" },
    { code := "3", id := Vincoun.mx.ctorIdx, string := "Mexico" },
    { code := "4", id := Vincoun.us.ctorIdx, string := "USA" },
    { code := "6", id := Vincoun.au.ctorIdx, string := "Australia" },
    { code := "9", id := Vincoun.br.ctorIdx, string := "Brazil" },
    { code := "J", id := Vincoun.jp.ctorIdx, string := "Japan" },
    { code := "K", id := Vincoun.kr.ctorIdx, string := "Korea" },
    { code := "L", id := Vincoun.cn.ctorIdx, string := "China" },
    { code := "R", id := Vincoun.tw.ctorIdx, string := "Taiwan" },
    { code := "S", id := Vincoun.gb.ctorIdx, string := "UK" },
    { code := "T", id := Vincoun.ch.ctorIdx, string := "Switzerland" },
    { code := "V", id := Vincoun.fr.ctorIdx, string := "France" },
    { code := "W", id := Vincoun.de.ctorIdx, string := "Germany" },
    { code := "Y", id := Vincoun.se.ctorIdx, string := "Sweden" },
    { code := "Z", id := Vincoun.it.ctorIdx, string := "Italy" } ]

/-- `g_manufac_table`. -/
def manufacTable : List Section :=
  [ unknownSection,
    { code := "LSG", id := Vinmanu.lsg.ctorIdx, string := "Shanghai General Motors" },
    { code := "LDC", id := Vinmanu.ldc.ctorIdx, string := "Dong Feng Peugeot Citroen (DPCA)" },
    { code := "PNA", id := Vinmanu.pna.ctorIdx, string := "Peugeot" } ]

/-- `g_modelin_peugeot_table`. -/
def modelinPeugeotTable : List Section :=
  [ unknownSection,
    { code := "2", id := VinmodePeugeot.p206.ctorIdx, string := "206" },
    { code := "8", id := VinmodePeugeot.p406508.ctorIdx, string := "406/508" },
    { code := "6", id := VinmodePeugeot.p407.ctorIdx, string := "407" },
    { code := "9", id := VinmodePeugeot.p308.ctorIdx, string := "308" },
    { code := "4", id := VinmodePeugeot.p308.ctorIdx, string := "308" },
    { code := "B", id := VinmodePeugeot.expert.ctorIdx, string := "Expert" },
    { code := "C", id := VinmodePeugeot.p208.ctorIdx, string := "208" },
    { code := "d", id := VinmodePeugeot.p301.ctorIdx, string := "301" },
    { code := "3", id := VinmodePeugeot.p307.ctorIdx, string := "307" },
    { code := "7", id := VinmodePeugeot.partner.ctorIdx, string := "Partner" } ]

/-- `g_modelin_dpca_table`. -/
def modelinDpcaTable : List Section :=
  [ unknownSection,
    { code := "838", id := VinmodeDpca.n68.ctorIdx, string := "N68-Picasso" },
    { code := "611", id := VinmodeDpca.t11.ctorIdx, string := "T11-206" },
    { code := "621", id := VinmodeDpca.t21.ctorIdx, string := "T21-C2" },
    { code := "631", id := VinmodeDpca.t31.ctorIdx, string := "T31-207 Hatchback" },
    { code := "613", id := VinmodeDpca.t33.ctorIdx, string := "T33-207 Sedan" },
    { code := "271", id := VinmodeDpca.r31.ctorIdx, string := "R31-Elysee Hatchback" },
    { code := "703", id := VinmodeDpca.r33.ctorIdx, string := "R33-Elysee Sedan" },
    { code := "C41", id := VinmodeDpca.b51.ctorIdx, string := "B51-Sega Hatchback" },
    { code := "C43", id := VinmodeDpca.b53.ctorIdx, string := "B53-Triumph" },
    { code := "C13", id := VinmodeDpca.bx3.ctorIdx, string := "BX3-Sega Sedan" },
    { code := "C23", id := VinmodeDpca.b73.ctorIdx, string := "B73-C4L" },
    { code := "953", id := VinmodeDpca.tx3.ctorIdx, string := "TX3-308" },
    { code := "943", id := VinmodeDpca.t73.ctorIdx, string := "T73-408" },
    { code := "931", id := VinmodeDpca.t61.ctorIdx, string := "T61-307 Hatchback" },
    { code := "913", id := VinmodeDpca.t63.ctorIdx, string := "T63-307 Sedan" },
    { code := "923", id := VinmodeDpca.t63.ctorIdx, string := "T63-307 Sedan" },
    { code := "933", id := VinmodeDpca.t63.ctorIdx, string := "T63-307 Sedan" },
    { code := "T81", id := VinmodeDpca.t88.ctorIdx, string := "T88-307 3008" },
    { code := "C33", id := VinmodeDpca.g25.ctorIdx, string := "G25-L60" },
    { code := "A13", id := VinmodeDpca.x7.ctorIdx, string := "X7-C5" },
    { code := "B13", id := VinmodeDpca.w23.ctorIdx, string := "W23-508" },
    { code := "633", id := VinmodeDpca.m33.ctorIdx, string := "M33-301" },
    { code := "643", id := VinmodeDpca.m43.ctorIdx, string := "M43-New Elysee" },
    { code := "673", id := VinmodeDpca.a94.ctorIdx, string := "A94-2008" },
    { code := "661", id := VinmodeDpca.m44.ctorIdx, string := "M44-C3-XR" },
    { code := "961", id := VinmodeDpca.t91.ctorIdx, string := "T91-308S" },
    { code := "973", id := VinmodeDpca.t93.ctorIdx, string := "T93-Brand new 408" } ]

/-- `g_bodytype_peugeot_table`. -/
def bodytypePeugeotTable : List Section :=
  [ unknownSection,
    { code := "A", id := VinbodyPeugeot.d3ds.ctorIdx, string := "3-door Saloon" },
    { code := "B", id := VinbodyPeugeot.cab.ctorIdx, string := "Cabriolet" },
    { code := "C", id := VinbodyPeugeot.d5ds.ctorIdx, string := "5-door Saloon" },
    { code := "D", id := VinbodyPeugeot.d4ds.ctorIdx, string := "4-door Saloon" },
    { code := "E", id := VinbodyPeugeot.est.ctorIdx, string := "Estate" },
    { code := "F", id := VinbodyPeugeot.e7s.ctorIdx, string := "Estate 7-seater" },
    { code := "G", id := VinbodyPeugeot.hat.ctorIdx, string := "Hatchback" },
    { code := "J", id := VinbodyPeugeot.cou.ctorIdx, string := "Coupe" },
    { code := "K", id := VinbodyPeugeot.d3dss.ctorIdx, string := "3-door Sport Saloon" },
    { code := "L", id := VinbodyPeugeot.d5dss.ctorIdx, string := "5-door Sport Saloon" },
    { code := "S", id := VinbodyPeugeot.d3dc.ctorIdx, string := "3-door Commercial" },
    { code := "T", id := VinbodyPeugeot.d5dc.ctorIdx, string := "5-door Commercial" } ]

/-- `vinmanu2vds`. -/
structure Vinmanu2vds where
  manuid : Nat
  tbVds : Option (List Section)
  tbVdsSize : Nat
  tbBt : Option (List Section)
  tbBtSize : Nat

/-- `g_manu2vds_map`. -/
def manu2vdsMap : List Vinmanu2vds :=
  [ { manuid := Vinmanu.unknown.ctorIdx, tbVds := none, tbVdsSize := 0, tbBt := none,
      tbBtSize := 0 },
    { manuid := Vinmanu.lsg.ctorIdx, tbVds := none, tbVdsSize := 0, tbBt := none, tbBtSize := 0 },
    { manuid := Vinmanu.ldc.ctorIdx, tbVds := some modelinDpcaTable,
      tbVdsSize := modelinDpcaTable.length, tbBt := none, tbBtSize := 0 },
    { manuid := Vinmanu.pna.ctorIdx, tbVds := some modelinPeugeotTable,
      tbVdsSize := modelinPeugeotTable.length, tbBt := some bodytypePeugeotTable,
      tbBtSize := VinbodyPeugeot.offset.ctorIdx } ]

/-! ### Parsing -/

/-- `g_chars`. -/
def chars : List Char := "ABCDEFGHJKLMNPRSTUVWXYZ1234567890".toList

/-- `g_year_chars`. -/
def yearChars : List Char := "ABCDEFGHJKLMNPRSTVWXY123456789".toList

/-- A `mem_ptr_t` into the number: where it begins, and how long it is. -/
structure MemPtr where
  p : Nat
  len : Nat
  deriving DecidableEq

/-- `vininfo`. -/
structure Vininfo where
  year : Option Int
  vin : List Char
  vds : Option MemPtr
  vis : Option MemPtr
  continent : Option (List Char)
  country : Section
  manufac : Section
  modelin : Section
  bodytyp : Section

/-- `vin_parser`, without the tables, which are always the same. -/
structure VinParser where
  vin : List Char
  pos : Nat

/-- `in_chars`. -/
def inChars (x : Char) (f e : Nat) (chars : List Char) : Bool :=
  let i := chars.idxOf x
  f ≤ i && i ≤ e

/-- `chars_between`. -/
def charsBetween (x f e : Char) : Bool :=
  chars.contains x && chars.contains f && chars.contains e &&
    (chars.idxOf f ≤ chars.idxOf x && chars.idxOf x ≤ chars.idxOf e)

/-- `section_find`: the first of so many rows whose code the text begins with. -/
def sectionFind (head : List Section) (size : Nat) (pos : List Char) : Option Section :=
  (head.take size).find? fun s => s.code.toList.isPrefixOf pos

/-- `vininfo_init`. -/
def vininfoInit (vp : VinParser) : Vininfo where
  year := none
  vin := vp.vin
  vds := none
  vis := none
  continent := none
  country := unknownSection
  manufac := unknownSection
  modelin := unknownSection
  bodytyp := unknownSection

/-- `vp_continent`. -/
def vpContinent (vp : VinParser) (vi : Vininfo) : Vininfo :=
  match vp.vin[vp.pos]? with
  | none => vi
  | some x =>
      if charsBetween x 'A' 'H' then { vi with continent := some "Africa".toList }
      else if charsBetween x 'J' 'R' then { vi with continent := some "Asia".toList }
      else if charsBetween x 'S' 'Z' then { vi with continent := some "Europe".toList }
      else if charsBetween x '1' '5' then { vi with continent := some "North America".toList }
      else if charsBetween x '6' '7' then { vi with continent := some "Oceania".toList }
      else if charsBetween x '8' '9' then { vi with continent := some "South America".toList }
      else vi

/-- `vp_country`. -/
def vpCountry (vp : VinParser) (vi : Vininfo) : Vininfo :=
  match sectionFind countryTable Vincoun.offset.ctorIdx (vp.vin.drop vp.pos) with
  | none => vi
  | some s => { vi with country := s }

/-- `vp_manufac`. -/
def vpManufac (vp : VinParser) (vi : Vininfo) : VinParser × Vininfo :=
  match sectionFind manufacTable Vinmanu.offset.ctorIdx (vp.vin.drop vp.pos) with
  | none => (vp, vi)
  | some s => ({ vp with pos := vp.pos + 3 }, { vi with manufac := s })

/-- `vp_maun2vds_map`. -/
def vpMaun2vdsMap (vi : Vininfo) : Option Vinmanu2vds :=
  (manu2vdsMap.take Vinmanu.offset.ctorIdx).find? fun p => p.manuid = vi.manufac.id

/-- A section looked up in a table that may not be there. -/
def tableFind (table : Option (List Section)) (size : Nat) (pos : List Char) : Option Section :=
  table.bind fun head => sectionFind head size pos

/-- `vp_mode`, with the section that begins at `vds`. -/
def vpMode (vds : List Char) (vi : Vininfo) : Vininfo :=
  match vpMaun2vdsMap vi with
  | none => vi
  | some map =>
      let vi :=
        match tableFind map.tbVds map.tbVdsSize vds with
        | none => vi
        | some s => { vi with modelin := s }
      match tableFind map.tbBt map.tbBtSize vds with
      | none => vi
      | some s => { vi with bodytyp := s }

/-- `vp_vds`. -/
def vpVds (vp : VinParser) (vi : Vininfo) : VinParser × Vininfo :=
  ({ vp with pos := vp.pos + 6 },
    vpMode (vp.vin.drop vp.pos) { vi with vds := some { p := vp.pos, len := 6 } })

/-- `vp_year`, in this year. -/
def vpYear (now : Int) (vi : Vininfo) : Option Vininfo :=
  vi.continent.map fun continent =>
    let min : Int :=
      if continent.isPrefixOf "North America".toList then
        if inChars (vi.vin.getD 6 '\x00') 0 22 yearChars then 2010 else 1980
      else 2010
    (List.range yearChars.length).foldl (fun vi (i : Nat) =>
      if yearChars[i]? = vi.vin[9]? then
        { vi with year := some (if min + i > now then min + i - 30 else min + i) }
      else vi) vi

/-- `vp_vis`. -/
def vpVis (now : Int) (vp : VinParser) (vi : Vininfo) : Option Vininfo :=
  vpYear now { vi with vis := some { p := vp.pos, len := 8 } }

/-- `vin_parse`. -/
def vinParse (now : Int) (vin : List Char) : Option Vininfo :=
  let vp : VinParser := { vin := vin, pos := 0 }
  let vi := vpCountry vp (vpContinent vp (vininfoInit vp))
  let manufac := vpManufac vp vi
  let vds := vpVds manufac.1 manufac.2
  vpVis now vds.1 vds.2

end Awoke.Vin
