import Docstore.Json

set_option autoImplicit false

namespace Docstore
namespace Geo

structure Point where
  lat : Binary64
  lon : Binary64
deriving DecidableEq

/-- A centre and a distance from it. -/
structure Area where
  lat : Binary64
  lon : Binary64
  distance : Binary64
deriving DecidableEq

def coordinate? (value : Json) : Option Binary64 :=
  value.number?.map Number.toBinary64

/-- A pair of numbers, or an object with the members `lat` and `lon`. -/
def Point.ofJson? : Json → Option Point
  | .array [lat, lon] => do
    let lat ← coordinate? lat
    let lon ← coordinate? lon
    some ⟨lat, lon⟩
  | .object members => do
    let lat ← (Members.get? "lat" members).bind coordinate?
    let lon ← (Members.get? "lon" members).bind coordinate?
    some ⟨lat, lon⟩
  | _ => none

def earthRadius : Float := 6371.0088

def kilometresPerDegree : Float := 111.32

def radians (degrees : Float) : Float :=
  degrees * (3.141592653589793 / 180.0)

def square (x : Float) : Float := x * x

/-- The great-circle distance by the haversine formula. -/
def Point.kilometresTo (p q : Point) : Float :=
  let lat₁ := radians p.lat.toFloat
  let lat₂ := radians q.lat.toFloat
  let dLat := lat₂ - lat₁
  let dLon := radians (q.lon.toFloat - p.lon.toFloat)
  let a := square (dLat / 2.0).sin + lat₁.cos * lat₂.cos * square (dLon / 2.0).sin
  2.0 * earthRadius * Float.atan2 a.sqrt (1.0 - a).sqrt

def Area.center (area : Area) : Point :=
  ⟨area.lat, area.lon⟩

def Area.isNear (area : Area) (p : Point) : Bool :=
  area.center.kilometresTo p ≤ area.distance.toFloat

/-- The width of a degree of longitude shrinks with the cosine of the latitude, but not to zero. -/
def Area.isWithin (area : Area) (p : Point) : Bool :=
  let dLat := area.distance.toFloat / kilometresPerDegree
  let width := kilometresPerDegree * (radians area.lat.toFloat).cos
  let least := Float.ofBits 0x3CB0000000000000
  let dLon := area.distance.toFloat / (if least < width then width else least)
  (p.lat.toFloat - area.lat.toFloat).abs ≤ dLat && (p.lon.toFloat - area.lon.toFloat).abs ≤ dLon

/-- Equality of the numbers, under which the two zeros are one. -/
def Area.same (a b : Area) : Bool :=
  a.lat.sameValue b.lat && a.lon.sameValue b.lon && a.distance.sameValue b.distance

end Geo
end Docstore
