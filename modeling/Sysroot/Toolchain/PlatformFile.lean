import Sysroot.Toolchain.Basic
import Sysroot.Tree.Action

/-!
# The platform file

A generated description of the target for CMake: which programs to use, which checks to
skip because the target runs nothing here, and the sizes of its types.

The block is written with an indentation and loses what its lines share of it.  A program
whose path spans several lines therefore keeps the indentation of the others.
-/

namespace Sysroot.Toolchain

/-- The lines of the platform file. -/
def platformLines (t : Toolchain) : List String :=
  let program := fun (p : Path) => "\"" ++ p.text ++ "\""
  let pointer := toString t.pointerBytes
  let bigEndian := if t.architecture.byteOrder = .big then "1" else "0"
  [ "# Generated target description for " ++ t.target ++ ".",
    "cmake_minimum_required(VERSION 3.4.3)",
    "",
    "set(CMAKE_SYSTEM_NAME WebAssembly)",
    "set(CMAKE_SYSTEM_VERSION 1)",
    "set(CMAKE_SYSTEM_PROCESSOR " ++ t.triple.architecture ++ ")",
    "set(CMAKE_CROSSCOMPILING TRUE)",
    "set(UNIX ON)",
    "unset(WIN32)",
    "unset(APPLE)",
    "",
    "set(CMAKE_C_COMPILER " ++ program t.compiler ++ " CACHE FILEPATH \"C Compiler\")",
    "set(CMAKE_CXX_COMPILER " ++ program (t.cxxCompiler.getD t.compiler) ++
      " CACHE FILEPATH \"C++ Compiler\")",
    "set(CMAKE_ASM_COMPILER \"false\")",
    "set(CMAKE_LINKER " ++ program t.linker ++ " CACHE FILEPATH \"Linker\")",
    "set(CMAKE_AR " ++ program t.archiver ++ " CACHE FILEPATH \"Archiver\")",
    "set(CMAKE_C_COMPILER_TARGET " ++ t.target ++ ")",
    "set(CMAKE_CXX_COMPILER_TARGET " ++ t.target ++ ")",
    "",
    "set(CMAKE_C_COMPILER_ID_RUN TRUE)",
    "set(CMAKE_C_COMPILER_FORCED TRUE)",
    "set(CMAKE_C_COMPILER_WORKS TRUE)",
    "set(CMAKE_C_COMPILER_ID Clang)",
    "set(CMAKE_CXX_COMPILER_ID_RUN TRUE)",
    "set(CMAKE_CXX_COMPILER_FORCED TRUE)",
    "set(CMAKE_CXX_COMPILER_WORKS TRUE)",
    "set(CMAKE_CXX_COMPILER_ID Clang)",
    "set(CMAKE_C_PLATFORM_ID \"wasm\")",
    "set(CMAKE_CXX_PLATFORM_ID \"wasm\")",
    "",
    "set(CMAKE_FIND_ROOT_PATH_MODE_PROGRAM NEVER)",
    "set(CMAKE_FIND_ROOT_PATH_MODE_LIBRARY ONLY)",
    "set(CMAKE_FIND_ROOT_PATH_MODE_INCLUDE ONLY)",
    "set(CMAKE_FIND_ROOT_PATH_MODE_PACKAGE ONLY)",
    "",
    "set(CMAKE_C_CREATE_STATIC_LIBRARY \"<CMAKE_AR> rc <TARGET> <LINK_FLAGS> <OBJECTS>\")",
    "set(CMAKE_CXX_CREATE_STATIC_LIBRARY \"<CMAKE_AR> rc <TARGET> <LINK_FLAGS> <OBJECTS>\")",
    "set(CMAKE_EXECUTABLE_SUFFIX \".wasm\")",
    "",
    "set(CMAKE_SKIP_COMPATIBILITY_TESTS 1)",
    "set(CMAKE_SIZEOF_CHAR 1)",
    "set(CMAKE_SIZEOF_SHORT 2)",
    "set(CMAKE_SIZEOF_INT 4)",
    "set(CMAKE_SIZEOF_LONG " ++ pointer ++ ")",
    "set(CMAKE_SIZEOF_VOID_P " ++ pointer ++ ")",
    "set(CMAKE_SIZEOF_FLOAT 4)",
    "set(CMAKE_SIZEOF_DOUBLE 8)",
    "set(CMAKE_C_SIZEOF_DATA_PTR " ++ pointer ++ ")",
    "set(CMAKE_CXX_SIZEOF_DATA_PTR " ++ pointer ++ ")",
    "set(CMAKE_WORDS_BIGENDIAN " ++ bigEndian ++ ")",
    "set(CMAKE_DL_LIBS)",
    "",
    "set(WASM 1 CACHE BOOL \"Targeting WebAssembly.\")"]

/-- The indentation with which the block is written. -/
def platformIndent : String := "            "

/-- The text of the platform file. -/
def platformText (t : Toolchain) : String :=
  let lines := (platformLines t).map fun l => if l = "" then "\n" else platformIndent ++ l ++ "\n"
  String.ofList (Text.dedent (String.join lines).toList)

/-- Where the platform file is below the directory of such files. -/
def platformPath (dir : Path) : Path := dir / "Platform" / "WebAssembly.cmake"

/-- Writes the platform file and gives its path. -/
def writePlatformFile (t : Toolchain) (dir : Path) : Tree.Action Path := do
  let p := platformPath dir
  Tree.Action.ensureDirs p.parent
  Tree.Action.writeText p t.platformText
  return p

end Sysroot.Toolchain
