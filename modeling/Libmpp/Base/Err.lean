import Mathlib

/-!
# Return values

The values of `MPP_RET` (`mpp_err.h`) that the modelled functions return.
-/

namespace Libmpp.Base

abbrev MppRet := ℤ

/-- `MPP_OK` -/
abbrev mppOk : MppRet := 0

/-- `MPP_NOK` -/
abbrev mppNok : MppRet := -1

/-- `MPP_ERR_UNKNOW` -/
abbrev mppErrUnknow : MppRet := -2

/-- `MPP_ERR_NULL_PTR` -/
abbrev mppErrNullPtr : MppRet := -3

/-- `MPP_ERR_MALLOC` -/
abbrev mppErrMalloc : MppRet := -4

/-- `MPP_ERR_VALUE` -/
abbrev mppErrValue : MppRet := -6

/-- `MPP_ERR_READ_BIT` -/
abbrev mppErrReadBit : MppRet := -7

/-- `MPP_ERR_STREAM` -/
abbrev mppErrStream : MppRet := -1004

/-- `MPP_ERR_NOMEM` -/
abbrev mppErrNomem : MppRet := -1006

end Libmpp.Base
