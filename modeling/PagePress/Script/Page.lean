import PagePress.Checksum
import PagePress.Embed
import PagePress.Piece
import PagePress.Render.Context

/-!
Scripts of a page. One makes links inside the page scroll smoothly; each contact form has one of
its own, which moves between four states (idle, sending, success, error) whatever the backend,
and hands a submission to the backend in its own way. Values of the author reach a script as
string literals only.
-/

namespace PagePress.Script

open Render

/-- The site that receives what the forms of its pages send. -/
def submissionOrigin : String := "https://easy-landing-omega.vercel.app"

def submissionEndpoint : String := submissionOrigin ++ "/api/submit-form"

/-- How long a form shows that it was sent, in milliseconds. -/
def resetDelay : Nat := 4000

/-- The length of the key of a hosted form. -/
def hostedKeyLength : Nat := 8

/-- The key under which a hosted form is known, made from its recipient. -/
def hostedKey (recipient : String) : String :=
  .ofList ((Checksum.checksum recipient.toList).take hostedKeyLength)

/-- The address of the hosted form of a recipient. -/
def hostedEndpoint (recipient : String) : String :=
  "https://formspree.io/f/" ++ hostedKey recipient

/-- The label of a backend in the events that a form reports. -/
def eventLabel : FormBackend → String
  | .hostedService => "hosted_form"
  | .platformNative => "platform_form"
  | .customEndpoint => "custom_form"

/-! ### The parts that depend on the backend -/

/-- What the script of a hosted form does first. -/
def hostedSetup (endpoint : String) : List Piece := [
  .fixed r#"  form.action = "#,
  .literal endpoint,
  .fixed r#";
  form.method = 'POST';

"#]

/-- How the script of a hosted form sends. -/
def hostedSubmit : List Piece := [
  .fixed r#"    event.preventDefault();
    toSending();
    fetch(form.action, {
      method: 'POST',
      body: new FormData(form),
      headers: {
        'Accept': 'application/json'
      }
    }).then(function (response) {
      if (!response.ok) {
        throw new Error('Form submission failed');
      }
      toSuccess();
    }).catch(function (error) {
      toError(error);
    });
"#]

/-- What the script of a form for the site's own platform does first. -/
def platformSetup (name : String) : List Piece := [
  .fixed r#"  form.setAttribute('data-netlify', 'true');
  form.setAttribute('data-netlify-honeypot', 'bot-field');
  form.setAttribute('name', "#,
  .literal name,
  .fixed r#");

  var formName = document.createElement('input');
  formName.type = 'hidden';
  formName.name = 'form-name';
  formName.value = "#,
  .literal name,
  .fixed r#";
  form.appendChild(formName);

  var honeypot = document.createElement('input');
  honeypot.name = 'bot-field';
  honeypot.style.display = 'none';
  honeypot.setAttribute('tabindex', '-1');
  honeypot.setAttribute('autocomplete', 'off');
  form.appendChild(honeypot);

"#]

/-- How the script of a form for the site's own platform sends: the platform does. -/
def platformSubmit : List Piece := [
  .fixed r#"    toSending();
    setTimeout(function () {
      toSuccess();
    }, 1000);
"#]

/-- What the script of a form for the submission endpoint does first. -/
def customSetup (recipient endpoint : String) : List Piece := [
  .fixed r#"  var recipientEmail = "#,
  .literal recipient,
  .fixed r#";
  var endpoint = "#,
  .literal endpoint,
  .fixed r#";

  function validateField(field) {
    if (field.checkValidity()) {
      field.classList.remove('error');
      field.style.borderColor = 'var(--border-color)';
    } else {
      field.classList.add('error');
      field.style.borderColor = '#dc2626';
    }
  }

  Array.prototype.forEach.call(form.querySelectorAll('input[required]'), function (input) {
    input.addEventListener('blur', function () {
      validateField(input);
    });
    input.addEventListener('input', function () {
      if (input.classList.contains('error')) {
        validateField(input);
      }
    });
  });

"#]

/-- How the script of a form for the submission endpoint sends. -/
def customSubmit : List Piece := [
  .fixed r#"    event.preventDefault();
    toSending();
    var data = {};
    new FormData(form).forEach(function (value, key) {
      data[key] = value;
    });
    var submission = {
      formData: data,
      recipientEmail: recipientEmail,
      pageId: form.getAttribute('data-page-id') || 'unknown',
      pageUrl: window.location.href,
      pageTitle: document.title,
      timestamp: new Date().toISOString(),
      userAgent: navigator.userAgent,
      referrer: document.referrer || 'Direct'
    };
    fetch(endpoint, {
      method: 'POST',
      mode: 'cors',
      headers: {
        'Content-Type': 'application/json',
        'Accept': 'application/json'
      },
      body: JSON.stringify(submission)
    }).then(function (response) {
      return response.json().then(function (result) {
        if (!(response.ok && result.success)) {
          throw new Error(result.error || 'Submission failed');
        }
        toSuccess(result.message);
      });
    }).catch(function (error) {
      toError(error);
    });
"#]

/-- What the script of a form does first. -/
def setup (backend : FormBackend) (id recipient : String) : List Piece :=
  match backend with
  | .hostedService => hostedSetup (hostedEndpoint recipient)
  | .platformNative => platformSetup (formId id)
  | .customEndpoint => customSetup recipient submissionEndpoint

/-- How the script of a form sends. -/
def submit : FormBackend → List Piece
  | .hostedService => hostedSubmit
  | .platformNative => platformSubmit
  | .customEndpoint => customSubmit

/-! ### Whole scripts -/

/-- The first part of every form's script. -/
def opening (id : String) (a : CallToAction) (backend : FormBackend) : List Piece := [
  .fixed r#"(function () {
  var form = document.getElementById("#,
  .literal (formId id),
  .fixed r#");
  if (!form) {
    return;
  }
  var message = document.getElementById("#,
  .literal (messageId id),
  .fixed r#");
  var submitButton = form.querySelector('button[type="submit"]');
  var idleLabel = submitButton ? submitButton.textContent : "#,
  .literal a.buttonText,
  .fixed r#";
  var successText = 'Thank you! Your message has been sent successfully.';
  var errorText = 'Sorry, there was an error sending your message. Please try again.';
  var resetDelay = "#,
  .fixed (toString resetDelay),
  .fixed r#";
  var state = 'idle';
  var resetTimer = null;

  function showMessage(kind, text) {
    if (!message) {
      return;
    }
    message.className = 'form-message ' + kind;
    message.textContent = text;
    message.style.display = 'block';
  }

  function track(eventName) {
    if (typeof window.gtag === 'function') {
      window.gtag('event', eventName, {
        event_category: 'engagement',
        event_label: "#,
  .literal (eventLabel backend),
  .fixed r#"
      });
    }
  }

  function toIdle() {
    state = 'idle';
    resetTimer = null;
    if (message) {
      message.style.display = 'none';
    }
    if (submitButton) {
      submitButton.disabled = false;
      submitButton.textContent = idleLabel;
    }
  }

  function toSending() {
    state = 'sending';
    if (resetTimer) {
      clearTimeout(resetTimer);
      resetTimer = null;
    }
    if (message) {
      message.style.display = 'none';
    }
    if (submitButton) {
      submitButton.disabled = true;
      submitButton.textContent = 'Sending...';
    }
  }

  function toSuccess(text) {
    state = 'success';
    showMessage('success', text || successText);
    form.reset();
    if (submitButton) {
      submitButton.disabled = false;
      submitButton.textContent = idleLabel;
    }
    track('form_submit');
    resetTimer = setTimeout(toIdle, resetDelay);
  }

  function toError(error) {
    state = 'error';
    showMessage('error', errorText);
    if (submitButton) {
      submitButton.disabled = false;
      submitButton.textContent = idleLabel;
    }
    if (error) {
      console.error('Form submission error:', error);
    }
    track('form_error');
  }

"#]

/-- What stands between the two parts that depend on the backend. -/
def middle : List Piece := [
  .fixed r#"  form.addEventListener('submit', function (event) {
    if (state === 'sending') {
      event.preventDefault();
      return;
    }
"#]

/-- The last part of every form's script. -/
def ending : List Piece := [
  .fixed r#"  });

  form.addEventListener('input', function () {
    if (state === 'error') {
      toIdle();
    }
  });
})();"#]

/-- The script of the form in the section `id`. -/
def handlerPieces (id : String) (a : CallToAction) (backend : FormBackend) : List Piece :=
  opening id a backend ++ setup backend id a.recipientEmail ++ middle ++ submit backend ++ ending

/-- The text of a form's script, safe inside a script element. -/
def handler (id : String) (a : CallToAction) (backend : FormBackend) : List Char :=
  Embed.script (Piece.textAll (handlerPieces id a backend))

/-- The script that makes links inside the page scroll smoothly. -/
def smoothScroll : String := r##"(function () {
  var reduceMotion = window.matchMedia && window.matchMedia('(prefers-reduced-motion: reduce)').matches;
  Array.prototype.forEach.call(document.querySelectorAll('a[href^="#"]'), function (link) {
    link.addEventListener('click', function (event) {
      var href = link.getAttribute('href');
      if (!href || href === '#') {
        event.preventDefault();
        return;
      }
      var target = document.getElementById(href.slice(1));
      if (target) {
        event.preventDefault();
        target.scrollIntoView({behavior: reduceMotion ? 'auto' : 'smooth', block: 'start'});
      }
    });
  });
})();"##

/-- The scripts of a page whose sections are in order: the scrolling one, and one for each
form. An unknown backend is an error as soon as a form needs it. -/
def page (form : FormChoice) (sections : List Section) : Except UnknownBackend (List Char) := do
  let handlers ← sections.filterMapM fun s =>
    match s.form? with
    | none => .ok none
    | some a => form.resolve.map fun backend => some (handler s.id a backend)
  return List.intercalate ['\n', '\n'] (Embed.script smoothScroll.toList :: handlers)

end PagePress.Script
