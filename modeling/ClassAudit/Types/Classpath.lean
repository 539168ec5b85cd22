import ClassAudit.ClassModel
import ClassAudit.Types.Resolve

/-!
# The class path

A class path is a table of classes, with later entries in front of earlier ones of the
same name. It counts how often it was asked. `Classpath.core` knows the library types
that nearly every class reaches.
-/

namespace ClassAudit

/-- A table of classes and the number of questions it has answered. -/
structure Classpath where
  classes : List (String × ClassFacts)
  asked : Nat
  deriving Repr

namespace Classpath

def empty : Classpath := ⟨[], 0⟩

/-- Adds a class in front of any other of that name. -/
def insert (classpath : Classpath) (name : String) (facts : ClassFacts) : Classpath :=
  { classpath with classes := (name, facts) :: classpath.classes }

def find? (classpath : Classpath) (name : String) : Option ClassFacts :=
  classpath.classes.lookup name

def contains (classpath : Classpath) (name : String) : Bool :=
  (classpath.find? name).isSome

instance : ClassSource Classpath where
  ask classpath name :=
    (classpath.find? name, { classpath with asked := classpath.asked + 1 })
  mentions classpath :=
    classpath.classes.foldr
      (fun (_, facts) total => facts.interfaces.length + 2 + total) 0

/-- An interface and the interfaces it extends. -/
def interfaceFacts (name : String) (interfaces : List String) : String × ClassFacts :=
  (name, ⟨none, interfaces, true⟩)

/-- A class, its superclass and its interfaces. -/
def classFacts (name superclass : String) (interfaces : List String) :
    String × ClassFacts :=
  (name, ⟨some superclass, interfaces, false⟩)

/-- Library types that nearly every class reaches. -/
def coreClasses : List (String × ClassFacts) :=
  [ interfaceFacts "java/io/Serializable" []
  , interfaceFacts "java/lang/Cloneable" []
  , interfaceFacts "java/lang/Comparable" []
  , interfaceFacts "java/lang/CharSequence" []
  , interfaceFacts "java/lang/Iterable" []
  , interfaceFacts "java/lang/Runnable" []
  , interfaceFacts "java/lang/AutoCloseable" []
  , interfaceFacts "java/io/Closeable" ["java/lang/AutoCloseable"]
  , interfaceFacts "java/util/Collection" ["java/lang/Iterable"]
  , interfaceFacts "java/util/List" ["java/util/Collection"]
  , interfaceFacts "java/util/Set" ["java/util/Collection"]
  , interfaceFacts "java/util/Map" []
  , classFacts "java/lang/String" "java/lang/Object"
      ["java/io/Serializable", "java/lang/Comparable", "java/lang/CharSequence"]
  , classFacts "java/lang/Number" "java/lang/Object" ["java/io/Serializable"]
  , classFacts "java/lang/Integer" "java/lang/Number" ["java/lang/Comparable"]
  , classFacts "java/lang/Long" "java/lang/Number" ["java/lang/Comparable"]
  , classFacts "java/lang/Short" "java/lang/Number" ["java/lang/Comparable"]
  , classFacts "java/lang/Byte" "java/lang/Number" ["java/lang/Comparable"]
  , classFacts "java/lang/Float" "java/lang/Number" ["java/lang/Comparable"]
  , classFacts "java/lang/Double" "java/lang/Number" ["java/lang/Comparable"]
  , classFacts "java/lang/Boolean" "java/lang/Object"
      ["java/io/Serializable", "java/lang/Comparable"]
  , classFacts "java/lang/Character" "java/lang/Object"
      ["java/io/Serializable", "java/lang/Comparable"]
  , classFacts "java/lang/Class" "java/lang/Object" ["java/io/Serializable"]
  , classFacts "java/lang/Throwable" "java/lang/Object" ["java/io/Serializable"]
  , classFacts "java/lang/Exception" "java/lang/Throwable" []
  , classFacts "java/lang/Error" "java/lang/Throwable" []
  , classFacts "java/lang/RuntimeException" "java/lang/Exception" [] ]

/-- A class path with the library types only. -/
def core : Classpath := ⟨coreClasses, 0⟩

/-- The library types, and some classes in front of them; the last of one name
counts. -/
def ofClasses (classes : List ClassModel) : Classpath :=
  classes.foldl
    (fun classpath model =>
      classpath.insert model.name
        ⟨model.superclass, model.interfaces, model.isInterface⟩)
    core

end Classpath

end ClassAudit
