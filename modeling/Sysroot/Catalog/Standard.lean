import Sysroot.Catalog.Basic

/-!
# The standard catalog

The eight runtime libraries of a WebAssembly sysroot.
-/

namespace Sysroot.Catalog

/-- Flags that the LLVM runtimes of C++ share. -/
def runtimeFlags : List String :=
  ["-nodefaultlibs", "-lc", "-D_LIBCPP_HAS_THREAD_API_PTHREAD"]

/-- The entries of the standard catalog. -/
def standardEntries : List Entry := [
  { library := .compat
    role := "compat-headers"
    kind := .native
    recipe := some .headers
    source := "compat"
    markerHeader := "compat/ctype.h"
    publicHeaders := "include"
    headerPrefix := "compat"
    copiesPublicHeaders := true },
  { library := .dlmalloc
    role := "allocator"
    kind := .native
    recipe := some .sources
    source := "dlmalloc"
    archive := "libdlmalloc.a"
    headerRequires := [.libc]
    sources := ["dlmalloc.c"]
    cflags := ["-O3"] },
  { library := .compilerRt
    role := "compiler-support-runtime"
    kind := .native
    recipe := some .sources
    source := "compiler-rt"
    archive := "libcompiler-rt.a"
    headerRequires := [.libc]
    sources := ["lib/builtins/*.c"]
    exclude := ["gcc_personality_v0.c", "apple_versioning.c", "emutls.c"]
    cflags := ["-Oz"] },
  { library := .libc
    role := "c-runtime"
    kind := .native
    recipe := some .makefile
    source := "musl"
    archive := "libc.a"
    requires := [.dlmalloc]
    markerHeader := "stdlib.h"
    embedObjects := [.dlmalloc]
    makeVars := .ofList [
      ("ARCH", "\x7barch\x7d"), ("CC", "\x7bcc\x7d"), ("AR", "\x7bar\x7d"),
      ("RANLIB", "\x7bar\x7d s"), ("LIBCC", ""), ("CFLAGS", "\x7bcflags\x7d"),
      ("LDFLAGS", "\x7bldflags\x7d -Oz")] },
  { library := .libunwind
    role := "unwinder"
    kind := .configured
    source := "libunwind"
    archive := "libunwind.a"
    requires := [.libc, .compilerRt]
    headerRequires := [.libcxx]
    markerHeader := "libunwind.h"
    publicHeaders := "include"
    copiesPublicHeaders := true
    needsLlvmSource := true
    cacheEntries := .ofList [
      ("LIBUNWIND_USE_COMPILER_RT", .on), ("LIBUNWIND_ENABLE_STATIC", .on),
      ("LIBUNWIND_ENABLE_SHARED", .off), ("LIBUNWIND_ENABLE_ASSERTIONS", .off),
      ("LIBUNWIND_ENABLE_THREADS", .off),
      ("LIBUNWIND_TARGET_TRIPLE", ⟨.string, "\x7btarget\x7d"⟩),
      ("LIBUNWIND_SYSROOT", ⟨.path, "\x7bsysroot\x7d"⟩),
      ("LIBUNWIND_CXX_INCLUDE_PATHS", ⟨.path, "\x7binclude\x7d/c++/v1"⟩),
      ("LLVM_PATH", ⟨.path, "\x7bllvm_src\x7d"⟩)]
    configureFlags := ["-nodefaultlibs", "-lc", "-D_LIBUNWIND_DISABLE_VISIBILITY_ANNOTATIONS"] },
  { library := .libcxxabi
    role := "c++-abi"
    kind := .configured
    source := "libcxxabi"
    archive := "libc++abi.a"
    requires := [.libc, .compilerRt]
    headerRequires := [.libcxx]
    markerHeader := "cxxabi.h"
    publicHeaders := "include"
    copiesPublicHeaders := true
    needsLlvmSource := true
    cacheEntries := .ofList [
      ("LIBCXXABI_USE_LLVM_UNWINDER", .off), ("LIBCXXABI_USE_COMPILER_RT", .on),
      ("LLVM_ENABLE_LIBCXX", .on), ("LIBCXXABI_ENABLE_STATIC", .on),
      ("LIBCXXABI_ENABLE_SHARED", .off), ("LIBCXXABI_ENABLE_THREADS", .on),
      ("LIBCXXABI_ENABLE_EXCEPTIONS", .off),
      ("LIBCXXABI_TARGET_TRIPLE", ⟨.string, "\x7btarget\x7d"⟩),
      ("LIBCXXABI_SYSROOT", ⟨.path, "\x7bsysroot\x7d"⟩),
      ("LIBCXXABI_LIBCXX_INCLUDES", ⟨.path, "\x7binclude\x7d/c++/v1"⟩),
      ("LLVM_PATH", ⟨.path, "\x7bllvm_src\x7d"⟩)]
    -- The unwinder's header comes from its sources, whether or not the unwinder is built.
    configureFlags := runtimeFlags ++ ["-I\x7bsources\x7d/libunwind/include"] },
  { library := .libcxx
    role := "c++-runtime"
    kind := .configured
    source := "libcxx"
    archive := "libc++.a"
    requires := [.libc, .compilerRt]
    headerRequires := [.libcxxabi]
    markerHeader := "c++/v1/__config"
    publicHeaders := "include"
    headerPrefix := "c++/v1"
    needsLlvmSource := true
    cacheEntries := .ofList [
      ("LIBCXX_USE_COMPILER_RT", .on), ("LIBCXX_HAS_MUSL_LIBC", .on),
      ("LIBCXX_ENABLE_STATIC", .on), ("LIBCXX_ENABLE_SHARED", .off),
      ("LIBCXX_ENABLE_THREADS", .on), ("LIBCXX_INSTALL_SUPPORT_HEADERS", .on),
      ("LIBCXX_ENABLE_WERROR", .off), ("LIBCXX_ENABLE_EXCEPTIONS", .off),
      ("LIBCXX_TARGET_TRIPLE", ⟨.string, "\x7btarget\x7d"⟩),
      ("LIBCXX_CXX_ABI", ⟨.string, "libcxxabi"⟩),
      ("LIBCXX_CXX_ABI_INCLUDE_PATHS", ⟨.path, "\x7binclude\x7d"⟩),
      ("LIBCXX_CXX_ABI_LIBRARY_PATH", ⟨.path, "\x7blib\x7d"⟩),
      ("LIBCXX_SYSROOT", ⟨.path, "\x7bsysroot\x7d"⟩),
      ("LLVM_PATH", ⟨.path, "\x7bllvm_src\x7d"⟩)]
    configureFlags := runtimeFlags ++ ["-I\x7bsource\x7d/include/support/musl"] },
  { library := .zlib
    role := "compression"
    kind := .native
    recipe := some .configureScript
    source := "zlib"
    archive := "libz.a"
    requires := [.libc]
    markerHeader := "zlib.h"
    configureArgs := ["--static"] }]

/-- The standard catalog. -/
def standard : Catalog := .ofList (standardEntries.map fun e => (e.library, e))

/-- The libraries that are built when nothing else is asked for. -/
def standardRequest : List Library := [.dlmalloc, .compilerRt, .libc, .libcxxabi, .libcxx]

end Sysroot.Catalog
