import SkyQuery.Feature.Basic

/-!
# The catalogue

All optional constructs of the language, users' functions excepted.
-/

namespace SkyQuery.Catalogue

/-- Category, form and description of each feature. -/
def entries : List (Category × String × String) :=
  [(.strings, "LOWER", "Put the given string in lower case."),
    (.strings, "UPPER", "Put the given string in upper case."),
    (.strings, "ILIKE", "Case-insensitive pattern matching."),
    (.sets, "UNION", "Union of the rows of two queries."),
    (.sets, "EXCEPT", "Rows of a query not returned by a second query."),
    (.sets, "INTERSECT", "Rows returned by two queries."),
    (.commonTables, "WITH", "Named subqueries (common table expressions)."),
    (.conditionals, "COALESCE", "First non-NULL value of a list."),
    (.offset, "OFFSET", "Number of rows to skip."),
    (.geometry, "AREA", "Area (in square degrees) of a region."),
    (.geometry, "BOX", "Box region."),
    (.geometry, "CENTROID", "Centroid of a region."),
    (.geometry, "CIRCLE", "Circle region."),
    (.geometry, "CONTAINS", "Whether a region is contained in another."),
    (.geometry, "COORD1", "First coordinate of a point."),
    (.geometry, "COORD2", "Second coordinate of a point."),
    (.geometry, "COORDSYS", "Coordinate system of a region."),
    (.geometry, "DISTANCE", "Angular distance between two points."),
    (.geometry, "INTERSECTS", "Whether two regions overlap."),
    (.geometry, "POINT", "Point on the sky."),
    (.geometry, "POLYGON", "Polygon region."),
    (.geometry, "REGION", "Region from an STC-S or DALI serialization."),
    (.types, "CAST", "Conversion into another datatype."),
    (.units, "IN_UNIT", "Conversion of a value into another unit.")]

/-- All features of the catalogue. -/
def features : List Feature :=
  entries.map fun (category, form, description) =>
    .construct (some category) form true (some description)

/-- The features of one category. -/
def ofCategory (c : Category) : List Feature := features.filter fun f => f.category == some c

/-- The feature of a category with a form, in any letter case. -/
def find? (c : Category) (form : String) : Option Feature :=
  (ofCategory c).find? fun f => Text.sameLetters f.form form

end SkyQuery.Catalogue
